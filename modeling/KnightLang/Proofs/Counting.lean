import KnightLang.Proofs.Ledger

/-!
Counting references keeps a store balanced. Adding a reference to a live payload gives it one more
owner; removing one takes an owner away, and frees the payload together with everything that only
it held.
-/

namespace KnightLang

@[simp]
theorem get_apply {ε σ : Type} (state : σ) :
    (get : EStateM ε σ σ) state = .ok state state := rfl

@[simp]
theorem modify_apply {ε σ : Type} (change : σ → σ) (state : σ) :
    (modify change : EStateM ε σ PUnit) state = .ok ⟨⟩ (change state) := rfl

namespace Store

/-- The same payloads, of which perhaps fewer are live. -/
structure Shrinks (before after : Store) : Prop where
  texts_size : after.texts.size = before.texts.size
  nodes_size : after.nodes.size = before.nodes.size
  live : ∀ value payload, after.live? value = some payload → before.live? value = some payload

namespace Shrinks

variable {before middle after : Store}

theorem refl (store : Store) : store.Shrinks store := ⟨rfl, rfl, fun _ _ hlive => hlive⟩

theorem trans (first : before.Shrinks middle) (second : middle.Shrinks after) :
    before.Shrinks after where
  texts_size := second.texts_size.trans first.texts_size
  nodes_size := second.nodes_size.trans first.nodes_size
  live value payload hlive := first.live value payload (second.live value payload hlive)

theorem continues (shrinks : before.Shrinks after) : before.Continues after where
  texts_le := shrinks.texts_size.ge
  nodes_le := shrinks.nodes_size.ge
  live value payload _ hlive := shrinks.live value payload hlive

theorem bytes_eq {index : Nat} {payload : Payload} (shrinks : before.Shrinks after)
    (hlive : after.live? (.string (.owned index)) = some payload) :
    before.bytes (.owned index) = after.bytes (.owned index) := by
  have hbefore := bytes_of_live? (shrinks.live _ _ hlive)
  exact Payload.text.inj (hbefore.symm.trans (bytes_of_live? hlive))

theorem node?_eq {index : Nat} {payload : Payload} (shrinks : before.Shrinks after)
    (hlive : after.live? (.expr index) = some payload) :
    ∃ function args, after.live? (.expr index) = some (.application function args) ∧
      (∃ refs, after.node? index = some { function, args, refs }) ∧
      ∃ refs, before.node? index = some { function, args, refs } := by
  obtain ⟨function, args, rfl⟩ := application_of_live? hlive
  obtain ⟨refs, -, hnode⟩ := node?_of_live? hlive
  obtain ⟨refs', -, hnode'⟩ := node?_of_live? (shrinks.live _ _ hlive)
  exact ⟨function, args, hlive, ⟨refs, hnode⟩, ⟨refs', hnode'⟩⟩

end Shrinks

variable {store : Store} {index cells : Nat} {outside : Multiset Value}

/-! ### Balance under each update -/

theorem Balanced.cons_plain {value : Value} (balanced : store.Balanced cells outside)
    (hplain : value.isPlain = true) (hcell : ∀ cell, value = .variable cell → cell < cells) :
    store.Balanced cells (value ::ₘ outside) where
  counts other refs hrefs := by
    have hne : other ≠ value := by
      rintro rfl
      simp [hplain] at hrefs
    rw [Multiset.add_cons, Multiset.count_cons_of_ne hne]
    exact balanced.counts other refs hrefs
  older := balanced.older
  known cell hmem := by
    rw [Multiset.add_cons, Multiset.mem_cons] at hmem
    rcases hmem with heq | hmem
    · exact hcell cell heq.symm
    · exact balanced.known cell hmem

theorem Balanced.of_cons_plain {value : Value} (balanced : store.Balanced cells (value ::ₘ outside))
    (hplain : value.isPlain = true) : store.Balanced cells outside where
  counts other refs hrefs := by
    have hne : other ≠ value := by
      rintro rfl
      simp [hplain] at hrefs
    have hcount := balanced.counts other refs hrefs
    rwa [Multiset.add_cons, Multiset.count_cons_of_ne hne] at hcount
  older := balanced.older
  known cell hmem :=
    balanced.known cell (by rw [Multiset.add_cons]; exact Multiset.mem_cons_of_mem hmem)

/-- Changing the number of references to one payload and the number of its owners alike keeps the
balance. -/
theorem Balanced.recount {after : Store} {outside' : Multiset Value} {changed : Value} {refs : Nat}
    (balanced : store.Balanced cells outside)
    (hrefs : ∀ other, after.refs? other =
      if other = changed then some refs else store.refs? other)
    (hself : refs = (after.holds + outside').count changed)
    (hother : ∀ other, other ≠ changed →
      (after.holds + outside').count other = (store.holds + outside).count other)
    (hplain : changed.isPlain = false)
    (holder : ∀ index node child, after.node? index = some node → .expr child ∈ node.args →
      child < index) :
    after.Balanced cells outside' where
  counts other number hnumber := by
    rw [hrefs other] at hnumber
    split at hnumber
    · next heq =>
        subst heq
        exact (Option.some.inj hnumber).symm.trans hself
    · next hne => rw [hother other hne, balanced.counts other number hnumber]
  older := holder
  known cell hmem := by
    have hne : Value.variable cell ≠ changed := by
      rintro rfl
      simp [Value.isPlain] at hplain
    have hpos := Multiset.count_pos.mpr hmem
    rw [hother _ hne] at hpos
    exact balanced.known cell (Multiset.count_pos.mp hpos)

theorem refs?_modifyText {text : Text} (htext : store.text? index = some text)
    (change : Text → Text) (other : Value) :
    refs? { store with texts := store.texts.modify index change } other =
      if other = .string (.owned index) then some (change text).refs else store.refs? other := by
  induction other using Value.payloadCases with
  | plain other hplain => simp [hplain, other.ne_owned_of_isPlain hplain]
  | text other =>
      by_cases heq : index = other
      · subst heq
        simp [htext]
      · simp [heq, Ne.symm heq]
  | application other => simp [node?]

theorem refs?_modifyNode {node : Node} (hnode : store.node? index = some node)
    (change : Node → Node) (other : Value) :
    refs? { store with nodes := store.nodes.modify index change } other =
      if other = .expr index then some (change node).refs else store.refs? other := by
  induction other using Value.payloadCases with
  | plain other hplain => simp [hplain, other.ne_expr_of_isPlain hplain]
  | text other => simp [text?]
  | application other =>
      by_cases heq : index = other
      · subst heq
        simp [hnode]
      · simp [heq, Ne.symm heq]

theorem shrinks_modifyText {text : Text} (htext : store.text? index = some text)
    (change : Text → Text)
    (hchange : ∀ payload, (change text).payload? = some payload → text.payload? = some payload) :
    store.Shrinks { store with texts := store.texts.modify index change } where
  texts_size := by simp
  nodes_size := rfl
  live value payload hvalue := by
    induction value using Value.payloadCases with
    | plain value hplain => simp [hplain] at hvalue
    | text other =>
        by_cases heq : index = other
        · subst heq
          rw [live?_owned, text?_modify, if_pos rfl, htext] at hvalue
          rw [live?_owned, htext]
          exact hchange payload hvalue
        · simpa [heq] using hvalue
    | application other => exact hvalue

theorem shrinks_modifyNode {node : Node} (hnode : store.node? index = some node)
    (change : Node → Node)
    (hchange : ∀ payload, (change node).payload? = some payload → node.payload? = some payload) :
    store.Shrinks { store with nodes := store.nodes.modify index change } where
  texts_size := rfl
  nodes_size := by simp
  live value payload hvalue := by
    induction value using Value.payloadCases with
    | plain value hplain => simp [hplain] at hvalue
    | text other => exact hvalue
    | application other =>
        by_cases heq : index = other
        · subst heq
          rw [live?_expr, node?_modify, if_pos rfl, hnode] at hvalue
          rw [live?_expr, hnode]
          exact hchange payload hvalue
        · simpa [heq] using hvalue

/-- Changes to applications that only take arguments away keep them older. -/
theorem Balanced.older_modify (balanced : store.Balanced cells outside) (change : Node → Node)
    (hchange : ∀ node child, .expr child ∈ (change node).args → .expr child ∈ node.args)
    (other : Nat) (node : Node) (child : Nat)
    (hnode : node? { store with nodes := store.nodes.modify index change } other = some node)
    (hmem : .expr child ∈ node.args) : child < other := by
  rw [node?_modify] at hnode
  split at hnode
  · obtain ⟨old, hold, rfl⟩ := Option.map_eq_some_iff.mp hnode
    exact balanced.older other old child hold (hchange old child hmem)
  · exact balanced.older other node child hnode hmem

/-! ### Adding a reference -/

theorem Balanced.setTextRefs_succ {text : Text} (balanced : store.Balanced cells outside)
    (htext : store.text? index = some text) :
    (store.setTextRefs index (text.refs + 1)).Balanced cells
      (.string (.owned index) ::ₘ outside) := by
  have hcount := balanced.counts _ _ (refs?_owned index)
  rw [htext, Option.map_some, Option.getD_some] at hcount
  refine balanced.recount (refs?_modifyText htext _) ?_ ?_ rfl balanced.older
  · rw [Multiset.add_cons, Multiset.count_cons_self]
    exact congrArg (· + 1) hcount
  · intro other hne
    rw [Multiset.add_cons, Multiset.count_cons_of_ne hne]
    rfl

theorem Balanced.setNodeRefs_succ {node : Node} (balanced : store.Balanced cells outside)
    (hnode : store.node? index = some node) (hlive : node.refs ≠ 0) :
    (store.setNodeRefs index (node.refs + 1)).Balanced cells (.expr index ::ₘ outside) := by
  have hcount := balanced.counts _ _ (refs?_expr index)
  rw [hnode, Option.map_some, Option.getD_some] at hcount
  have hholds := holds_setNodeRefs_of_live hnode hlive (Nat.succ_ne_zero node.refs)
  refine balanced.recount (refs?_modifyNode hnode _) ?_ ?_ rfl
    (balanced.older_modify _ fun _ _ hmem => hmem)
  · rw [hholds, Multiset.add_cons, Multiset.count_cons_self]
    exact congrArg (· + 1) hcount
  · intro other hne
    rw [hholds, Multiset.add_cons, Multiset.count_cons_of_ne hne]

@[simp]
theorem retain_of_isPlain : ∀ {value : Value}, value.isPlain = true →
    retain value store = .ok ⟨⟩ store
  | .null, _ | .boolean _, _ | .number _, _ | .variable _, _ | .string (.static _), _ => rfl

theorem retain_owned {text : Text} (htext : store.text? index = some text) (hlive : text.refs ≠ 0) :
    retain (.string (.owned index)) store = .ok ⟨⟩ (store.setTextRefs index (text.refs + 1)) := by
  obtain ⟨bytes, refs⟩ := text
  obtain ⟨refs, rfl⟩ := Nat.exists_eq_succ_of_ne_zero hlive
  simp [retain, retainText, bind, EStateM.bind, htext]

theorem retain_expr {node : Node} (hnode : store.node? index = some node) (hlive : node.refs ≠ 0) :
    retain (.expr index) store = .ok ⟨⟩ (store.setNodeRefs index (node.refs + 1)) := by
  obtain ⟨function, args, refs⟩ := node
  obtain ⟨refs, rfl⟩ := Nat.exists_eq_succ_of_ne_zero hlive
  simp [retain, bind, EStateM.bind, hnode]

/-- A guarded value gets one more reference and one more owner. -/
theorem Balanced.retain {held : Multiset Value} {value : Value}
    (balanced : store.Balanced cells outside) (hsub : held ⊆ outside)
    (guarded : store.Guarded cells held value) :
    ∃ after, retain value store = .ok ⟨⟩ after ∧ after.Balanced cells (value ::ₘ outside) ∧
      store.Shrinks after := by
  induction value using Value.payloadCases with
  | plain value hplain =>
      refine ⟨store, retain_of_isPlain hplain, balanced.cons_plain hplain ?_, .refl store⟩
      rintro cell rfl
      exact balanced.cell_lt_of_guarded hsub guarded
  | text index =>
      obtain ⟨payload, hlive⟩ := balanced.live_of_guarded hsub guarded rfl
      obtain ⟨text, htext, hrefs, -⟩ := live?_owned_eq_some_iff.mp hlive
      refine ⟨_, retain_owned htext hrefs, balanced.setTextRefs_succ htext,
        shrinks_modifyText htext _ ?_⟩
      simp [hrefs]
  | application index =>
      obtain ⟨payload, hlive⟩ := balanced.live_of_guarded hsub guarded rfl
      obtain ⟨node, hnode, hrefs, -⟩ := live?_expr_eq_some_iff.mp hlive
      refine ⟨_, retain_expr hnode hrefs, balanced.setNodeRefs_succ hnode hrefs,
        shrinks_modifyNode hnode _ ?_⟩
      simp [hrefs]

/-! ### Removing a reference -/

theorem text?_of_held (balanced : store.Balanced cells (.string (.owned index) ::ₘ outside)) :
    ∃ text, store.text? index = some text ∧
      text.refs = (store.holds + outside).count (.string (.owned index)) + 1 := by
  have hcount := balanced.counts _ _ (refs?_owned index)
  rw [Multiset.add_cons, Multiset.count_cons_self] at hcount
  cases htext : store.text? index with
  | none => simp [htext] at hcount
  | some text => exact ⟨text, rfl, by simpa [htext] using hcount⟩

theorem node?_of_held (balanced : store.Balanced cells (.expr index ::ₘ outside)) :
    ∃ node, store.node? index = some node ∧
      node.refs = (store.holds + outside).count (.expr index) + 1 := by
  have hcount := balanced.counts _ _ (refs?_expr index)
  rw [Multiset.add_cons, Multiset.count_cons_self] at hcount
  cases hnode : store.node? index with
  | none => simp [hnode] at hcount
  | some node => exact ⟨node, rfl, by simpa [hnode] using hcount⟩

theorem releaseText_last {text : Text} (htext : store.text? index = some text)
    (hrefs : text.refs = 1) : releaseText (.owned index) store = .ok ⟨⟩ (store.freeText index) := by
  obtain ⟨bytes, refs⟩ := text
  simp only at hrefs
  subst hrefs
  simp [releaseText, bind, EStateM.bind, htext]

theorem releaseText_shared {text : Text} {refs : Nat} (htext : store.text? index = some text)
    (hrefs : text.refs = refs + 2) :
    releaseText (.owned index) store = .ok ⟨⟩ (store.setTextRefs index (refs + 1)) := by
  obtain ⟨bytes, count⟩ := text
  simp only at hrefs
  subst hrefs
  simp [releaseText, bind, EStateM.bind, htext]

theorem Balanced.releaseText
    (balanced : store.Balanced cells (.string (.owned index) ::ₘ outside)) :
    ∃ after, releaseText (.owned index) store = .ok ⟨⟩ after ∧ after.Balanced cells outside ∧
      store.Shrinks after := by
  obtain ⟨text, htext, hrefs⟩ := text?_of_held balanced
  have hother : ∀ other, other ≠ Value.string (.owned index) →
      (store.holds + outside).count other =
        (store.holds + .string (.owned index) ::ₘ outside).count other := by
    intro other hne
    rw [Multiset.add_cons, Multiset.count_cons_of_ne hne]
  cases hcount : (store.holds + outside).count (.string (.owned index)) with
  | zero =>
      rw [hcount] at hrefs
      refine ⟨_, releaseText_last htext hrefs, ?_, shrinks_modifyText htext _ ?_⟩
      · exact balanced.recount (refs?_modifyText htext _) hcount.symm hother rfl balanced.older
      · simp
  | succ count =>
      rw [hcount] at hrefs
      refine ⟨_, releaseText_shared htext hrefs, ?_, shrinks_modifyText htext _ ?_⟩
      · exact balanced.recount (refs?_modifyText htext _) hcount.symm hother rfl balanced.older
      · simp [hrefs]

theorem Shrinks.dead {before after : Store} (shrinks : before.Shrinks after) {node : Node}
    (hnode : before.node? index = some node) (hdead : node.refs = 0) :
    ∃ node, after.node? index = some node ∧ node.refs = 0 := by
  have hlt : index < after.nodes.size := by
    rw [shrinks.nodes_size]
    exact (Array.getElem?_eq_some_iff.mp hnode).1
  refine ⟨after.nodes[index], Array.getElem?_eq_getElem hlt, ?_⟩
  by_contra hlive
  have hafter : after.live? (.expr index) =
      some (.application after.nodes[index].function after.nodes[index].args) :=
    live?_expr_eq_some_iff.mpr ⟨_, Array.getElem?_eq_getElem hlt, hlive, rfl⟩
  have hbefore := shrinks.live _ _ hafter
  simp [hnode, hdead] at hbefore

/-- Emptying an argument slot of a freed application changes nothing that is owned. -/
theorem Balanced.clearArg {node : Node} (balanced : store.Balanced cells outside)
    (hnode : store.node? index = some node) (hdead : node.refs = 0) (position : Nat) :
    (store.clearArg index position).Balanced cells outside ∧
      store.Shrinks (store.clearArg index position) := by
  have hholds := holds_clearArg hnode hdead position
  have hcount := balanced.counts _ _ (refs?_expr index)
  rw [hnode, Option.map_some, Option.getD_some] at hcount
  constructor
  · refine balanced.recount (refs?_modifyNode hnode _) ?_ ?_ rfl
      (balanced.older_modify _ fun old child hmem => ?_)
    · rw [hholds]
      exact hcount
    · intro other _
      rw [hholds]
    · exact (List.mem_or_eq_of_mem_set hmem).resolve_right (by simp)
  · refine shrinks_modifyNode hnode _ ?_
    simp [hdead]

/-- A way of removing a reference that works for values whose applications have an index below a
bound. -/
def ReleasesBelow (release : Value → StoreM PUnit) (bound cells : Nat) : Prop :=
  ∀ (store : Store) (outside : Multiset Value) (value : Value),
    store.Balanced cells (value ::ₘ outside) → (∀ index, value = .expr index → index < bound) →
    ∃ after, release value store = .ok ⟨⟩ after ∧ after.Balanced cells outside ∧
      store.Shrinks after

theorem Balanced.releaseArgs {release : Value → StoreM PUnit} {bound : Nat}
    (hrelease : ReleasesBelow release bound cells) {args : List Value} {node : Node}
    (position : Nat) (balanced : store.Balanced cells (args + outside))
    (hnode : store.node? index = some node) (hdead : node.refs = 0)
    (hbelow : ∀ child, .expr child ∈ args → child < bound) :
    ∃ after, releaseArgs release index position args store = .ok ⟨⟩ after ∧
      after.Balanced cells outside ∧ store.Shrinks after := by
  induction args generalizing store position node with
  | nil =>
      refine ⟨store, rfl, ?_, .refl store⟩
      simpa using balanced
  | cons value rest ih =>
      -- The freed application stays freed while its arguments go one by one.
      rw [← Multiset.cons_coe, Multiset.cons_add] at balanced
      obtain ⟨released, hreleased, hbalanced, hshrinks⟩ :=
        hrelease store (rest + outside) value balanced fun child heq =>
          hbelow child (heq ▸ List.mem_cons_self)
      obtain ⟨gone, hgone, hzero⟩ := hshrinks.dead hnode hdead
      obtain ⟨hcleared, hclears⟩ := hbalanced.clearArg hgone hzero position
      obtain ⟨left, hleft, hleftZero⟩ := hclears.dead hgone hzero
      obtain ⟨after, hafter, hdone, hrest⟩ := ih (position + 1) hcleared hleft hleftZero
        fun child hmem => hbelow child (List.mem_cons_of_mem _ hmem)
      refine ⟨after, ?_, hdone, (hshrinks.trans hclears).trans hrest⟩
      simp only [Store.releaseArgs, bind, EStateM.bind, hreleased, modify_apply]
      exact hafter

theorem releaseWithin_last {node : Node} (bound : Nat) (hnode : store.node? index = some node)
    (hrefs : node.refs = 1) :
    releaseWithin (bound + 1) (.expr index) store =
      Store.releaseArgs (releaseWithin bound) index 0 node.args (store.setNodeRefs index 0) := by
  obtain ⟨function, args, refs⟩ := node
  simp only at hrefs
  subst hrefs
  simp [releaseWithin, bind, EStateM.bind, hnode]

theorem releaseWithin_shared {node : Node} {refs : Nat} (bound : Nat)
    (hnode : store.node? index = some node) (hrefs : node.refs = refs + 2) :
    releaseWithin (bound + 1) (.expr index) store =
      .ok ⟨⟩ (store.setNodeRefs index (refs + 1)) := by
  obtain ⟨function, args, count⟩ := node
  simp only at hrefs
  subst hrefs
  simp [releaseWithin, bind, EStateM.bind, hnode]

@[simp]
theorem releaseWithin_of_isPlain (bound : Nat) : ∀ {value : Value}, value.isPlain = true →
    releaseWithin bound value store = .ok ⟨⟩ store
  | .null, _ | .boolean _, _ | .number _, _ | .variable _, _ | .string (.static _), _ => by
      cases bound <;> rfl

/-- Freeing an application hands its arguments over to whoever releases them. -/
theorem Balanced.setNodeRefs_zero {node : Node}
    (balanced : store.Balanced cells (.expr index ::ₘ outside))
    (hnode : store.node? index = some node) (hrefs : node.refs = 1) :
    (store.setNodeRefs index 0).Balanced cells (node.args + outside) ∧
      store.Shrinks (store.setNodeRefs index 0) := by
  have hlive : node.refs ≠ 0 := by omega
  have hholds := holds_setNodeRefs_zero_add hnode hlive
  have hcount := balanced.counts _ _ (refs?_expr index)
  rw [hnode, Option.map_some, Option.getD_some, hrefs, Multiset.add_cons,
    Multiset.count_cons_self] at hcount
  constructor
  · refine balanced.recount (refs?_modifyNode hnode _) ?_ ?_ rfl
      (balanced.older_modify _ fun _ _ hmem => hmem)
    · rw [← add_assoc, hholds]
      change 0 = _
      omega
    · intro other hne
      rw [← add_assoc, hholds, Multiset.add_cons, Multiset.count_cons_of_ne hne]
  · refine shrinks_modifyNode hnode _ ?_
    simp

theorem Balanced.setNodeRefs_pred {node : Node} {refs : Nat}
    (balanced : store.Balanced cells (.expr index ::ₘ outside))
    (hnode : store.node? index = some node) (hrefs : node.refs = refs + 2) :
    (store.setNodeRefs index (refs + 1)).Balanced cells outside ∧
      store.Shrinks (store.setNodeRefs index (refs + 1)) := by
  have hlive : node.refs ≠ 0 := by omega
  have hholds := holds_setNodeRefs_of_live hnode hlive (Nat.succ_ne_zero refs)
  have hcount := balanced.counts _ _ (refs?_expr index)
  rw [hnode, Option.map_some, Option.getD_some, hrefs, Multiset.add_cons,
    Multiset.count_cons_self] at hcount
  constructor
  · refine balanced.recount (refs?_modifyNode hnode _) ?_ ?_ rfl
      (balanced.older_modify _ fun _ _ hmem => hmem)
    · rw [hholds]
      change refs + 1 = _
      omega
    · intro other hne
      rw [hholds, Multiset.add_cons, Multiset.count_cons_of_ne hne]
  · refine shrinks_modifyNode hnode _ ?_
    simp [hlive]

/-- Arguments are older than the application that holds them, so a bound on the index also bounds
how deep a release goes. -/
theorem releasesBelow_releaseWithin (bound cells : Nat) :
    ReleasesBelow (releaseWithin bound) bound cells := by
  induction bound with
  | zero =>
      intro store outside value balanced hbelow
      induction value using Value.payloadCases with
      | plain value hplain =>
          exact ⟨store, releaseWithin_of_isPlain 0 hplain, balanced.of_cons_plain hplain,
            .refl store⟩
      | text index => exact balanced.releaseText
      | application index => exact absurd (hbelow index rfl) (Nat.not_lt_zero index)
  | succ bound ih =>
      intro store outside value balanced hbelow
      induction value using Value.payloadCases with
      | plain value hplain =>
          exact ⟨store, releaseWithin_of_isPlain _ hplain, balanced.of_cons_plain hplain,
            .refl store⟩
      | text index => exact balanced.releaseText
      | application index =>
          obtain ⟨node, hnode, hrefs⟩ := node?_of_held balanced
          cases hcount : (store.holds + outside).count (.expr index) with
          | zero =>
              rw [hcount] at hrefs
              obtain ⟨hfreed, hshrinks⟩ := balanced.setNodeRefs_zero hnode hrefs
              have hdead : (store.setNodeRefs index 0).node? index =
                  some { node with refs := 0 } := by simp [hnode]
              obtain ⟨after, hafter, hdone, hrest⟩ := hfreed.releaseArgs ih 0 hdead rfl
                fun child hmem => by
                  have holder := balanced.older index node child hnode hmem
                  have hindex := hbelow index rfl
                  omega
              exact ⟨after, by rw [releaseWithin_last bound hnode hrefs, hafter], hdone,
                hshrinks.trans hrest⟩
          | succ count =>
              rw [hcount] at hrefs
              obtain ⟨hbalanced, hshrinks⟩ := balanced.setNodeRefs_pred hnode hrefs
              exact ⟨_, releaseWithin_shared bound hnode hrefs, hbalanced, hshrinks⟩

/-- A held value that is released loses a reference and an owner. -/
theorem Balanced.release {value : Value} (balanced : store.Balanced cells (value ::ₘ outside)) :
    ∃ after, release value store = .ok ⟨⟩ after ∧ after.Balanced cells outside ∧
      store.Shrinks after := by
  refine releasesBelow_releaseWithin store.nodes.size cells store outside value balanced ?_
  rintro index rfl
  obtain ⟨node, hnode, -⟩ := node?_of_held balanced
  exact (Array.getElem?_eq_some_iff.mp hnode).1

/-! ### Making payloads -/

@[simp]
theorem text?_push (text : Text) (other : Nat) :
    text? { store with texts := store.texts.push text } other =
      if other = store.texts.size then some text else store.text? other :=
  Array.getElem?_push

@[simp]
theorem node?_push (node : Node) (other : Nat) :
    node? { store with nodes := store.nodes.push node } other =
      if other = store.nodes.size then some node else store.node? other :=
  Array.getElem?_push

theorem refs?_pushText (text : Text) (other : Value) :
    refs? { store with texts := store.texts.push text } other =
      if other = .string (.owned store.texts.size) then some text.refs else store.refs? other := by
  induction other using Value.payloadCases with
  | plain other hplain => simp [hplain, other.ne_owned_of_isPlain hplain]
  | text other =>
      by_cases heq : other = store.texts.size <;> simp [heq]
  | application other => simp [node?]

theorem refs?_pushNode (node : Node) (other : Value) :
    refs? { store with nodes := store.nodes.push node } other =
      if other = .expr store.nodes.size then some node.refs else store.refs? other := by
  induction other using Value.payloadCases with
  | plain other hplain => simp [hplain, other.ne_expr_of_isPlain hplain]
  | text other => simp [text?]
  | application other =>
      by_cases heq : other = store.nodes.size <;> simp [heq]

theorem live?_pushText (text : Text) (other : Value) :
    live? { store with texts := store.texts.push text } other =
      if other = .string (.owned store.texts.size) then text.payload? else store.live? other := by
  induction other using Value.payloadCases with
  | plain other hplain => simp [hplain, other.ne_owned_of_isPlain hplain]
  | text other =>
      by_cases heq : other = store.texts.size <;> simp [heq]
  | application other => simp [node?]

theorem live?_pushNode (node : Node) (other : Value) :
    live? { store with nodes := store.nodes.push node } other =
      if other = .expr store.nodes.size then node.payload? else store.live? other := by
  induction other using Value.payloadCases with
  | plain other hplain => simp [hplain, other.ne_expr_of_isPlain hplain]
  | text other => simp [text?]
  | application other =>
      by_cases heq : other = store.nodes.size <;> simp [heq]

theorem continues_pushText (store : Store) (text : Text) :
    store.Continues { store with texts := store.texts.push text } where
  texts_le := by simp
  nodes_le := le_rfl
  live value payload hmade hlive := by
    rw [live?_pushText, if_neg] at hlive
    · exact hlive
    · rintro rfl
      exact lt_irrefl _ hmade

theorem continues_pushNode (store : Store) (node : Node) :
    store.Continues { store with nodes := store.nodes.push node } where
  texts_le := le_rfl
  nodes_le := by simp
  live value payload hmade hlive := by
    rw [live?_pushNode, if_neg] at hlive
    · exact hlive
    · rintro rfl
      exact lt_irrefl _ hmade

theorem Shrinks.pushText {before after : Store} (shrinks : before.Shrinks after) (text : Text) :
    Shrinks { before with texts := before.texts.push text }
      { after with texts := after.texts.push text } where
  texts_size := by simp [shrinks.texts_size]
  nodes_size := shrinks.nodes_size
  live value payload hlive := by
    rw [live?_pushText, shrinks.texts_size] at hlive
    rw [live?_pushText]
    split at hlive
    · next heq => rw [if_pos heq, hlive]
    · next hne => rw [if_neg hne, shrinks.live value payload hlive]

theorem Shrinks.pushNode {before after : Store} (shrinks : before.Shrinks after) (node : Node) :
    Shrinks { before with nodes := before.nodes.push node }
      { after with nodes := after.nodes.push node } where
  texts_size := shrinks.texts_size
  nodes_size := by simp [shrinks.nodes_size]
  live value payload hlive := by
    rw [live?_pushNode, shrinks.nodes_size] at hlive
    rw [live?_pushNode]
    split at hlive
    · next heq => rw [if_pos heq, hlive]
    · next hne => rw [if_neg hne, shrinks.live value payload hlive]

theorem Balanced.more_cells {size : Nat} (balanced : store.Balanced cells outside)
    (hle : cells ≤ size) : store.Balanced size outside where
  counts := balanced.counts
  older := balanced.older
  known cell hmem := (balanced.known cell hmem).trans_le hle

theorem Balanced.pushText (balanced : store.Balanced cells outside) (contents : Bytes) :
    Balanced { store with texts := store.texts.push { bytes := contents, refs := 1 } } cells
      (.string (.owned store.texts.size) ::ₘ outside) := by
  have hcount := balanced.counts _ _ (refs?_owned store.texts.size)
  rw [text?, Array.getElem?_size, Option.map_none, Option.getD_none] at hcount
  refine balanced.recount (refs?_pushText _) ?_ ?_ rfl balanced.older
  · rw [Multiset.add_cons, Multiset.count_cons_self]
    exact congrArg (· + 1) hcount
  · intro other hne
    rw [Multiset.add_cons, Multiset.count_cons_of_ne hne]
    rfl

/-- A new application has one reference and one owner, and owns its arguments itself. -/
theorem Balanced.pushNode {args : List Value} (balanced : store.Balanced cells (args + outside))
    (function : Function) :
    Balanced { store with nodes := store.nodes.push { function, args, refs := 1 } } cells
      (.expr store.nodes.size ::ₘ outside) := by
  have hcount := balanced.counts _ _ (refs?_expr store.nodes.size)
  rw [node?, Array.getElem?_size, Option.map_none, Option.getD_none] at hcount
  have hholds : holds { store with nodes := store.nodes.push { function, args, refs := 1 } } =
      store.holds + args := holds_push _
  refine balanced.recount (refs?_pushNode _) ?_ ?_ rfl ?_
  · rw [hholds, Multiset.add_cons, Multiset.count_cons_self, add_assoc]
    exact congrArg (· + 1) hcount
  · intro other hne
    rw [hholds, Multiset.add_cons, Multiset.count_cons_of_ne hne, add_assoc]
  · intro other node child hnode hmem
    rw [node?_push] at hnode
    split at hnode
    · next heq =>
        subst heq
        obtain rfl : _ = node := Option.some.inj hnode
        have howner : Value.expr child ∈ store.holds + (args + outside) := by
          simp only [Multiset.mem_add, Multiset.mem_coe]
          exact Or.inr (Or.inl hmem)
        obtain ⟨payload, hlive⟩ := balanced.live_of_mem howner rfl
        exact made_of_live? hlive
    · exact balanced.older other node child hnode hmem

end Store

end KnightLang
