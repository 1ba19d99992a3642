import KnightLang.Proofs.Logic.Hosting
import KnightLang.Proofs.Steps.Evaluation

/-!
Payloads do not change while they live. Whatever a host asks of a machine is done by steps of its
store, so that over any number of requests a string that stays live keeps its bytes, and an
application its function and its arguments; what is freed never comes back.
-/

namespace KnightLang

namespace Store

/-- References apart, everything in a store is as it was before; more strings may have come. -/
structure Spares (before after : Store) : Prop where
  nodes : after.nodes = before.nodes
  texts : ∀ index text, before.text? index = some text →
    ∃ refs, after.text? index = some { text with refs }

instance : IsPreorder Store Spares where
  refl store := ⟨rfl, fun _ text htext => ⟨text.refs, htext⟩⟩
  trans before middle after first second := by
    refine ⟨second.nodes.trans first.nodes, fun index text htext => ?_⟩
    obtain ⟨refs, hmiddle⟩ := first.texts index text htext
    obtain ⟨count, hafter⟩ := second.texts index _ hmiddle
    exact ⟨count, hafter⟩

theorem spares_addText (contents : Bytes) : Along Spares (addText contents) := by
  refine fun store => ⟨rfl, fun index text htext => ⟨text.refs, ?_⟩⟩
  have hlt : index < store.texts.size := (Array.getElem?_eq_some_iff.mp htext).1
  simpa [hlt.ne] using htext

theorem spares_setTextRefs (store : Store) (index refs : Nat) :
    store.Spares (store.setTextRefs index refs) := by
  refine ⟨rfl, fun other text htext => ?_⟩
  by_cases heq : index = other
  · exact ⟨refs, by simp [heq, htext]⟩
  · exact ⟨text.refs, by simp [heq, htext]⟩

theorem spares_retainText (text : TextRef) : Along Spares (retainText text) := by
  cases text with
  | static text => exact .pure _
  | owned index =>
      refine .observe fun store => ?_
      split
      · exact .update fun store => store.spares_setTextRefs index _
      · exact .throw _

end Store

/-! ### Whatever a host asks for -/

/-- The store of a machine has taken steps. -/
def Machine.Preserves (before after : Machine) : Prop := before.store.Steps after.store

instance : IsPreorder Machine Machine.Preserves where
  refl machine := refl_of Store.Steps machine.store
  trans _ _ _ first second := trans_of Store.Steps first second

theorem Evaluator.preserves_within (fuel : Nat) (machine : Machine) (node : Nat) :
    Along Machine.Preserves ((within fuel machine).apply node) :=
  fun start => (along_within fuel machine node start).weaken fun _ hsteps => hsteps.store

/-- The logic of what becomes of the store. -/
def Evaluator.preserving (fuel : Nat) (machine start : Machine) :
    Logic (machine.maxDepth - machine.depth).toNat fuel :=
  (within fuel machine).lasting (fun _ _ hsteps => hsteps.store) (preserves_within fuel machine)
    start

theorem Evaluator.unrestricted_preserving (fuel : Nat) (machine start : Machine) :
    (preserving fuel machine start).Unrestricted where
  allows := trivial
  lists _ := trivial
  expects _ := trivial
  may _ := trivial
  becomes _ := trivial
  gives _ := trivial
  fetch _ _ hmachine := ⟨trivial, hmachine⟩
  unlist _ _ hmachine := ⟨trivial, hmachine⟩

theorem Operation.preserves_perform (fuel : Nat) (operation : Operation) :
    Along Machine.Preserves (operation.perform fuel) :=
  fun machine =>
    have hkeeps (start : Machine) : Run.Keeps start.Preserves (fun _ => True) (fun _ => True)
        (operation.performWith (Evaluator.within fuel machine)) :=
      (Evaluator.unrestricted_preserving fuel machine start).operation operation
    Along.of_keeps hkeeps machine

/-- What a host does with a machine: it asks for something, whatever comes of it, or changes
something that is no payload. -/
inductive Machine.Serves (machine : Machine) : Machine → Prop where
  | answered {after : Machine} {answer : Answer} (operation : Operation) (fuel : Nat) :
      operation.perform fuel machine = .ok answer after → Serves machine after
  | stopped {after : Machine} {stop : Stop} (operation : Operation) (fuel : Nat) :
      operation.perform fuel machine = .error stop after → Serves machine after
  | configured {after : Machine} : after.store = machine.store → Serves machine after

namespace Machine

variable {before after : Machine}

theorem Serves.preserves (hserves : before.Serves after) : before.Preserves after := by
  cases hserves with
  | answered operation fuel hperform =>
      have hleft := operation.preserves_perform fuel before
      rw [hperform] at hleft
      exact hleft
  | stopped operation fuel hperform =>
      have hleft := operation.preserves_perform fuel before
      rw [hperform] at hleft
      exact hleft
  | configured hstore =>
      unfold Preserves
      rw [hstore]
      exact refl_of Store.Steps before.store

theorem preserves_of_serves (hserves : Relation.ReflTransGen Serves before after) :
    before.Preserves after := by
  induction hserves with
  | refl => exact refl_of Preserves before
  | tail _ hlast ih => exact trans_of Preserves ih hlast.preserves

/-- Over any number of requests, whatever comes of each of them: a payload that is live before and
after is the same, and one that was freed is not live again. The store gets from one to the other by
steps that leave a live string its bytes and a live application its function and arguments, and
free either of them only with its last reference; and the operations on strings change nothing of
what there was but the numbers of references. -/
theorem payloads_immutable (hserves : Relation.ReflTransGen Serves before after) :
    (∀ value payload later, before.store.live? value = some payload →
      after.store.live? value = some later → later = payload) ∧
    (∀ value, before.store.Made value → before.store.live? value = none →
      after.store.live? value = none) ∧
    Relation.ReflTransGen Store.Step before.store after.store ∧
    (∀ during next, Store.Step during next →
      (∀ index text, during.text? index = some text →
        ∃ later, next.text? index = some later ∧ text.Becomes later) ∧
      ∀ index node, during.node? index = some node →
        ∃ later, next.node? index = some later ∧ node.Becomes later) ∧
    (∀ first second, Along Store.Spares (Store.concat first second)) ∧
    (∀ text count, Along Store.Spares (Store.replicate text count)) ∧
    (∀ text start length, Along Store.Spares (Store.substring text start length)) ∧
    ∀ text start length replacement,
      Along Store.Spares (Store.splice text start length replacement) := by
  have hsteps : before.store.Steps after.store := preserves_of_serves hserves
  have hcontinues := hsteps.continues
  refine ⟨?_, ?_, hsteps, ?_, ?_, ?_, ?_, ?_⟩
  · intro value payload later hbefore hafter
    have hsame := hcontinues.live value later (Store.made_of_live? hbefore) hafter
    exact Option.some.inj (hsame.symm.trans hbefore)
  · intro value hmade hdead
    by_contra hlive
    obtain ⟨payload, hpayload⟩ := Option.ne_none_iff_exists'.mp hlive
    have hbefore := hcontinues.live value payload hmade hpayload
    rw [hdead] at hbefore
    cases hbefore
  · intro during next hstep
    exact ⟨fun index text htext => hstep.text htext, fun index node hnode => hstep.node hnode⟩
  · exact Store.along_concat Store.spares_retainText Store.spares_addText
  · exact Store.along_replicate Store.spares_retainText Store.spares_addText
  · exact Store.along_substring Store.spares_retainText Store.spares_addText
  · exact Store.along_splice Store.spares_retainText Store.spares_addText

/-- A machine with a variable `s` that holds a string. -/
def textInVariable : Machine :=
  { store := { texts := #[{ bytes := "abc", refs := 1 }] }
    environment := { cells := #[{ name := "s", value := some (.string (.owned 0)) }] } }

/-- Replaces the middle of a string by the whole of it. -/
def spliceIntoSelf : Operation := .evaluate { unread := "SET s 1 1 s" } "EVAL"

theorem payloads_immutable_splice :
    ∃ after, Relation.ReflTransGen Serves textInVariable after ∧
      textInVariable.store.live? (.string (.owned 0)) = some (.text "abc") ∧
      after.store.live? (.string (.owned 0)) = some (.text "abc") ∧
      after.store.live? (.string (.owned 1)) = some (.text "aabcc") := by
  have hbefore : textInVariable.store.live? (.string (.owned 0)) = some (.text "abc") := rfl
  have hrun : (match spliceIntoSelf.perform 0 textInVariable with
    | .ok _ after => (after.store.live? (.string (.owned 0))).isSome &&
        decide (after.store.text? 1 = some { bytes := "aabcc", refs := 1 })
    | .error _ _ => false) = true := by decide +kernel
  split at hrun
  · next after hperform =>
      have hserves := Relation.ReflTransGen.single (Serves.answered _ 0 hperform)
      obtain ⟨hlive, hnew⟩ := Bool.and_eq_true_iff.mp hrun
      obtain ⟨later, hlater⟩ := Option.isSome_iff_exists.mp hlive
      obtain rfl := (payloads_immutable hserves).1 _ _ later hbefore hlater
      refine ⟨after, hserves, hbefore, hlater, ?_⟩
      simp [of_decide_eq_true hnew]
  · exact absurd hrun Bool.false_ne_true

end Machine

end KnightLang
