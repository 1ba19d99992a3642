import KnightLang.Proofs.Ledger
import Mathlib.Algebra.BigOperators.Group.Finset.Basic
import Mathlib.Order.Monotone.Basic

/-!
Stores with the same live payloads under other indices. When every payload has as many references
as owners, what is live is decided by what is held: two balanced stores that agree on the payloads
that are live in both, and of which the same values are held, have the same live payloads with the
same numbers of references.
-/

namespace KnightLang

/-- Where the indices of payloads go. Applications stay in order. -/
structure Renaming where
  text : Nat → Nat
  node : Nat → Nat
  text_injective : Function.Injective text
  node_strictMono : StrictMono node

namespace Renaming

def textRef (rename : Renaming) : TextRef → TextRef
  | .static text => .static text
  | .owned index => .owned (rename.text index)

def value (rename : Renaming) : Value → Value
  | .null => .null
  | .boolean flag => .boolean flag
  | .number word => .number word
  | .string text => .string (rename.textRef text)
  | .variable cell => .variable cell
  | .expr node => .expr (rename.node node)

def payload (rename : Renaming) : Payload → Payload
  | .text bytes => .text bytes
  | .application function args => .application function (args.map rename.value)

/-- Every index stays where it is. -/
def same : Renaming where
  text := id
  node := id
  text_injective := Function.injective_id
  node_strictMono := strictMono_id

variable {rename : Renaming}

theorem value_injective (rename : Renaming) : Function.Injective rename.value := by
  intro first second hvalue
  cases first <;> cases second <;> simp_all [value]
  · next first second =>
      cases first <;> cases second <;> simp_all [textRef]
      exact rename.text_injective hvalue
  · exact rename.node_strictMono.injective hvalue

@[simp]
theorem value_of_isPlain {value : Value} (hplain : value.isPlain = true) :
    rename.value value = value := by
  cases value with
  | string text =>
      cases text with
      | static text => rfl
      | owned index => cases hplain
  | null | boolean flag | number word | «variable» cell => rfl
  | expr node => cases hplain

theorem count_map_eq_zero (held : Multiset Value) {value : Value}
    (hvalue : value ∉ Set.range rename.value) : (held.map rename.value).count value = 0 := by
  rw [Multiset.count_eq_zero]
  intro hmem
  obtain ⟨old, -, hold⟩ := Multiset.mem_map.mp hmem
  exact hvalue ⟨old, hold⟩

theorem expr_mem_range {index : Nat} (hmem : .expr index ∈ Set.range rename.value) :
    index ∈ Set.range rename.node := by
  obtain ⟨value, hvalue⟩ := hmem
  cases value with
  | expr node => exact ⟨node, Value.expr.inj hvalue⟩
  | null | boolean flag | number word | string text | «variable» cell => cases hvalue

@[simp]
theorem value_same (value : Value) : same.value value = value := by
  cases value with
  | string text => cases text <;> rfl
  | null | boolean flag | number word | «variable» cell | expr node => rfl

@[simp]
theorem same_value : same.value = id := funext value_same

@[simp]
theorem payload_same (payload : Payload) : same.payload payload = payload := by
  cases payload with
  | text bytes => rfl
  | application function args => simp [Renaming.payload]

@[simp]
theorem same_payload : same.payload = id := funext payload_same

end Renaming

/-! ### Owners one application after the other -/

theorem count_sum_map {α : Type} (weight : α → Multiset Value) (items : List α) (value : Value)
    {bound : Nat} (hbound : items.length ≤ bound) :
    ((items.map weight).sum).count value =
      ∑ index ∈ Finset.range bound, ((items[index]?.map weight).getD 0).count value := by
  induction items generalizing bound with
  | nil => simp
  | cons item items ih =>
      obtain ⟨bound, rfl⟩ : ∃ smaller, bound = smaller + 1 :=
        ⟨bound - 1, by simp only [List.length_cons] at hbound; omega⟩
      have hlength : items.length ≤ bound := Nat.le_of_succ_le_succ hbound
      rw [Finset.sum_range_succ', List.map_cons, List.sum_cons, Multiset.count_add, ih hlength]
      simp [Nat.add_comm]

namespace Store

/-- The values in the argument slots of an application, if it is live. -/
def heldBy (store : Store) (index : Nat) : Multiset Value :=
  ((store.node? index).map Node.holds).getD 0

variable {store : Store} {index bound : Nat}

theorem heldBy_of_size_le (hsize : store.nodes.size ≤ index) : store.heldBy index = 0 := by
  simp [heldBy, node?, hsize]

theorem count_holds (hbound : store.nodes.size ≤ bound) (value : Value) :
    store.holds.count value = ∑ index ∈ Finset.range bound, (store.heldBy index).count value := by
  have hcount := count_sum_map Node.holds store.nodes.toList value hbound
  simpa only [holds, heldBy, node?, Array.getElem?_toList] using hcount

theorem mem_args_of_mem_heldBy {value : Value} (hmem : value ∈ store.heldBy index) :
    ∃ node, store.node? index = some node ∧ node.refs ≠ 0 ∧ value ∈ node.args := by
  unfold heldBy at hmem
  cases hnode : store.node? index with
  | none => simp [hnode] at hmem
  | some node =>
      rw [hnode, Option.map_some, Option.getD_some, Node.holds] at hmem
      split_ifs at hmem with hrefs
      · simp at hmem
      · exact ⟨node, rfl, hrefs, hmem⟩

theorem heldBy_of_nodeRefs_eq_zero (hrefs : store.nodeRefs index = 0) : store.heldBy index = 0 := by
  unfold nodeRefs at hrefs
  unfold heldBy
  cases hnode : store.node? index with
  | none => rfl
  | some node =>
      rw [hnode] at hrefs
      simp_all [Node.holds]

theorem live?_and_heldBy_of_nodeRefs (hrefs : store.nodeRefs index ≠ 0) :
    ∃ function args, store.live? (.expr index) = some (.application function args) ∧
      store.heldBy index = args := by
  unfold nodeRefs at hrefs
  cases hnode : store.node? index with
  | none => simp [hnode] at hrefs
  | some node =>
      rw [hnode, Option.map_some, Option.getD_some] at hrefs
      refine ⟨node.function, node.args, ?_, ?_⟩
      · exact live?_expr_eq_some_iff.mpr ⟨node, hnode, hrefs, rfl⟩
      · rw [heldBy, hnode, Option.map_some, Option.getD_some, Node.holds, if_neg hrefs]

theorem Balanced.count_heldBy_of_le {cells : Nat} {outside : Multiset Value} {child : Nat}
    (balanced : store.Balanced cells outside) (hle : index ≤ child) :
    (store.heldBy index).count (.expr child) = 0 := by
  rw [Multiset.count_eq_zero]
  intro hmem
  obtain ⟨node, hnode, -, hargs⟩ := mem_args_of_mem_heldBy hmem
  have holder := balanced.older index node child hnode hargs
  omega

/-! ### Two balanced stores -/

/-- What is live in both stores is the same payload but for the renaming. -/
def Agrees (rename : Renaming) (before after : Store) : Prop :=
  ∀ value payload payload', before.live? value = some payload →
    after.live? (rename.value value) = some payload' → payload' = rename.payload payload

variable {rename : Renaming} {before after : Store} {cells size : Nat} {outside : Multiset Value}

theorem heldBy_eq_map (hagrees : Agrees rename before after)
    (hrefs : after.nodeRefs (rename.node index) = before.nodeRefs index) :
    after.heldBy (rename.node index) = (before.heldBy index).map rename.value := by
  by_cases hdead : before.nodeRefs index = 0
  · rw [heldBy_of_nodeRefs_eq_zero hdead, heldBy_of_nodeRefs_eq_zero (hrefs.trans hdead),
      Multiset.map_zero]
  · obtain ⟨function, args, hlive, hheld⟩ := live?_and_heldBy_of_nodeRefs hdead
    rw [← hrefs] at hdead
    obtain ⟨function', args', hlive', hheld'⟩ := live?_and_heldBy_of_nodeRefs hdead
    have hsame := hagrees (.expr index) _ _ hlive hlive'
    simp only [Renaming.payload, Payload.application.injEq] at hsame
    rw [hheld, hheld', hsame.2, Multiset.map_coe]

/-- The holders of a value correspond when the applications that hold it do. -/
theorem count_holds_eq (rename : Renaming) {value renamed : Value}
    (himage : ∀ index, (after.heldBy (rename.node index)).count renamed =
      (before.heldBy index).count value)
    (hforeign : ∀ index, index ∉ Set.range rename.node → (after.heldBy index).count renamed = 0) :
    after.holds.count renamed = before.holds.count value := by
  have hafter : after.nodes.size ≤ max after.nodes.size (rename.node before.nodes.size) :=
    le_max_left _ _
  rw [count_holds hafter, count_holds le_rfl]
  have hsubset : (Finset.range before.nodes.size).image rename.node ⊆
      Finset.range (max after.nodes.size (rename.node before.nodes.size)) := by
    intro index hmem
    obtain ⟨old, hold, rfl⟩ := Finset.mem_image.mp hmem
    have hlt := rename.node_strictMono (Finset.mem_range.mp hold)
    exact Finset.mem_range.mpr (lt_of_lt_of_le hlt (le_max_right _ _))
  rw [← Finset.sum_subset hsubset, Finset.sum_image rename.node_strictMono.injective.injOn]
  · exact Finset.sum_congr rfl fun index _ => himage index
  · intro index _ hnot
    by_cases hrange : index ∈ Set.range rename.node
    · obtain ⟨old, rfl⟩ := hrange
      have hsize : before.nodes.size ≤ old := by
        by_contra hlt
        exact hnot (Finset.mem_image_of_mem _ (Finset.mem_range.mpr (by omega)))
      rw [himage, heldBy_of_size_le hsize, Multiset.count_zero]
    · exact hforeign index hrange

variable (hbefore : before.Balanced cells outside)
  (hafter : after.Balanced size (outside.map rename.value)) (hagrees : Agrees rename before after)

include hbefore hafter hagrees

/-- An application has the same number of references under its new index, if those that may hold it
have. -/
theorem nodeRefs_eq_of_newer {index : Nat}
    (hnewer : ∀ newer, index < newer →
      after.nodeRefs (rename.node newer) = before.nodeRefs newer)
    (hforeign : ∀ newer, rename.node index < newer → newer ∉ Set.range rename.node →
      after.nodeRefs newer = 0) :
    after.nodeRefs (rename.node index) = before.nodeRefs index := by
  have hholds : after.holds.count (.expr (rename.node index)) =
      before.holds.count (.expr index) := by
    refine count_holds_eq rename (fun holder => ?_) fun holder hholder => ?_
    · by_cases hlt : index < holder
      · rw [heldBy_eq_map hagrees (hnewer holder hlt)]
        exact Multiset.count_map_eq_count' _ _ rename.value_injective (.expr index)
      · have hle : rename.node holder ≤ rename.node index :=
          rename.node_strictMono.monotone (Nat.le_of_not_lt hlt)
        rw [hafter.count_heldBy_of_le hle, hbefore.count_heldBy_of_le (Nat.le_of_not_lt hlt)]
    · by_cases hlt : rename.node index < holder
      · rw [heldBy_of_nodeRefs_eq_zero (hforeign holder hlt hholder), Multiset.count_zero]
      · exact hafter.count_heldBy_of_le (Nat.le_of_not_lt hlt)
  calc after.nodeRefs (rename.node index)
      = (after.holds + outside.map rename.value).count (.expr (rename.node index)) :=
        hafter.counts _ _ rfl
    _ = before.holds.count (.expr index) + outside.count (.expr index) := by
        rw [Multiset.count_add, hholds]
        exact congrArg _ (Multiset.count_map_eq_count' _ _ rename.value_injective (.expr index))
    _ = before.nodeRefs index := by
        rw [← Multiset.count_add]
        exact (hbefore.counts _ _ rfl).symm

omit hbefore in
/-- An application that no index goes to has no references, if those that may hold it have none. -/
theorem nodeRefs_eq_zero_of_newer {index : Nat} (hindex : index ∉ Set.range rename.node)
    (hnewer : ∀ newer, index < rename.node newer →
      after.nodeRefs (rename.node newer) = before.nodeRefs newer)
    (hforeign : ∀ newer, index < newer → newer ∉ Set.range rename.node →
      after.nodeRefs newer = 0) :
    after.nodeRefs index = 0 := by
  have hrange : .expr index ∉ Set.range rename.value := fun hmem =>
    hindex (Renaming.expr_mem_range hmem)
  have hheld (holder : Nat) : (after.heldBy holder).count (.expr index) = 0 := by
    by_cases hlt : index < holder
    · by_cases hholder : holder ∈ Set.range rename.node
      · obtain ⟨old, rfl⟩ := hholder
        rw [heldBy_eq_map hagrees (hnewer old hlt), Renaming.count_map_eq_zero _ hrange]
      · rw [heldBy_of_nodeRefs_eq_zero (hforeign holder hlt hholder), Multiset.count_zero]
    · exact hafter.count_heldBy_of_le (Nat.le_of_not_lt hlt)
  calc after.nodeRefs index
      = (after.holds + outside.map rename.value).count (.expr index) := hafter.counts _ _ rfl
    _ = 0 := by
        rw [Multiset.count_add, count_holds le_rfl, Renaming.count_map_eq_zero _ hrange,
          Finset.sum_eq_zero fun holder _ => hheld holder]

/-- From the newest application to the oldest, each one has the references that it has under its old
index, or none if it has no old index. -/
theorem nodeRefs_eq (index : Nat) :
    (∀ old, rename.node old = index → after.nodeRefs index = before.nodeRefs old) ∧
      (index ∉ Set.range rename.node → after.nodeRefs index = 0) := by
  have hbeyond {store : Store} {index : Nat} (hsize : store.nodes.size ≤ index) :
      store.nodeRefs index = 0 := by simp [nodeRefs, node?, hsize]
  let bound := max after.nodes.size (rename.node before.nodes.size)
  induction hgap : bound - index using Nat.strongRecOn generalizing index with
  | _ gap ih =>
      by_cases hbound : bound ≤ index
      · have hsize : after.nodes.size ≤ index := le_trans (le_max_left _ _) hbound
        refine ⟨fun old hold => ?_, fun _ => hbeyond hsize⟩
        have hold' : rename.node before.nodes.size ≤ rename.node old :=
          hold ▸ le_trans (le_max_right _ _) hbound
        rw [hbeyond hsize, hbeyond (rename.node_strictMono.le_iff_le.mp hold')]
      · have hnewer (newer : Nat) (hlt : index < newer) := ih (bound - newer) (by omega) newer rfl
        constructor
        · rintro old rfl
          refine nodeRefs_eq_of_newer hbefore hafter hagrees (fun newer hlt => ?_) ?_
          · exact (hnewer _ (rename.node_strictMono hlt)).1 newer rfl
          · exact fun newer hlt hrange => (hnewer newer hlt).2 hrange
        · intro hrange
          refine nodeRefs_eq_zero_of_newer hafter hagrees hrange (fun newer hlt => ?_) ?_
          · exact (hnewer _ hlt).1 newer rfl
          · exact fun newer hlt hrange => (hnewer newer hlt).2 hrange

/-- Every payload has the references that it has under its old index. -/
theorem refs?_eq (value : Value) : after.refs? (rename.value value) = before.refs? value := by
  have hholds : after.holds.count (rename.value value) = before.holds.count value := by
    refine count_holds_eq rename (fun holder => ?_) fun holder hholder => ?_
    · rw [heldBy_eq_map hagrees ((nodeRefs_eq hbefore hafter hagrees _).1 holder rfl)]
      exact Multiset.count_map_eq_count' _ _ rename.value_injective value
    · rw [heldBy_of_nodeRefs_eq_zero ((nodeRefs_eq hbefore hafter hagrees _).2 hholder),
        Multiset.count_zero]
  have howners : (after.holds + outside.map rename.value).count (rename.value value) =
      (before.holds + outside).count value := by
    rw [Multiset.count_add, Multiset.count_add, hholds,
      Multiset.count_map_eq_count' _ _ rename.value_injective]
  induction value using Value.payloadCases with
  | plain value hplain => simp [hplain]
  | text index =>
      have hcount := hafter.counts (.string (.owned (rename.text index))) _ rfl
      have hcount' := hbefore.counts (.string (.owned index)) _ rfl
      exact congrArg some ((hcount.trans howners).trans hcount'.symm)
  | application index =>
      exact congrArg some ((nodeRefs_eq hbefore hafter hagrees _).1 index rfl)

/-- What is live is live under its new index, with what it holds renamed. -/
theorem live?_eq (value : Value) :
    after.live? (rename.value value) = (before.live? value).map rename.payload := by
  have hrefs := refs?_eq hbefore hafter hagrees value
  have hlive : (after.live? (rename.value value)).isSome ↔ (before.live? value).isSome := by
    rw [live?_isSome_iff, live?_isSome_iff, hrefs]
  cases hpayload : before.live? value with
  | none =>
      rw [hpayload, Option.isSome_none, Option.isSome_iff_ne_none] at hlive
      simpa using hlive
  | some payload =>
      have hsome : (before.live? value).isSome := by simp [hpayload]
      obtain ⟨payload', hpayload'⟩ := Option.isSome_iff_exists.mp (hlive.mpr hsome)
      rw [hpayload', hagrees value payload payload' hpayload hpayload', Option.map_some]

/-- Nothing else is live. -/
theorem live?_eq_none {value : Value} (hrange : value ∉ Set.range rename.value) :
    after.live? value = none := by
  have hdead (hrefs : after.refs? value = some 0) : after.live? value = none := by
    have hlive : (after.live? value).isSome → ∃ refs, after.refs? value = some refs ∧ 0 < refs :=
      live?_isSome_iff.mp
    by_contra hne
    obtain ⟨refs, hsome, hpos⟩ := hlive (Option.isSome_iff_ne_none.mpr hne)
    rw [hrefs] at hsome
    cases hsome
    exact absurd hpos (lt_irrefl 0)
  induction value using Value.payloadCases with
  | plain value hplain => exact live?_of_isPlain hplain
  | text index =>
      have hheld (holder : Nat) : (after.heldBy holder).count (.string (.owned index)) = 0 := by
        by_cases hholder : holder ∈ Set.range rename.node
        · obtain ⟨old, rfl⟩ := hholder
          rw [heldBy_eq_map hagrees ((nodeRefs_eq hbefore hafter hagrees _).1 old rfl),
            Renaming.count_map_eq_zero _ hrange]
        · rw [heldBy_of_nodeRefs_eq_zero ((nodeRefs_eq hbefore hafter hagrees _).2 hholder),
            Multiset.count_zero]
      have hcount := hafter.counts (.string (.owned index)) _ rfl
      rw [Multiset.count_add, count_holds le_rfl, Renaming.count_map_eq_zero _ hrange,
        Finset.sum_eq_zero fun holder _ => hheld holder] at hcount
      exact hdead (congrArg some hcount)
  | application index =>
      have hindex : index ∉ Set.range rename.node := by
        rintro ⟨old, rfl⟩
        exact hrange ⟨.expr old, rfl⟩
      exact hdead (congrArg some ((nodeRefs_eq hbefore hafter hagrees index).2 hindex))

end Store

/-- Two stores that balance the same owners have the same payloads, if what is live in both of them
is the same in both. -/
theorem Store.Balanced.payloads_eq {before after : Store} {cells cells' : Nat}
    {outside : Multiset Value} (hbefore : before.Balanced cells outside)
    (hafter : after.Balanced cells' outside)
    (hsame : ∀ value payload payload', before.live? value = some payload →
      after.live? value = some payload' → payload' = payload) (value : Value) :
    after.refs? value = before.refs? value ∧ after.live? value = before.live? value := by
  have hagrees : Store.Agrees .same before after := by
    intro other payload payload' hlive hlive'
    rw [Renaming.value_same] at hlive'
    simp [hsame other payload payload' hlive hlive']
  have hbalanced : after.Balanced cells' (outside.map Renaming.same.value) := by simpa using hafter
  have hrefs := Store.refs?_eq hbefore hbalanced hagrees value
  have hlive := Store.live?_eq hbefore hbalanced hagrees value
  exact ⟨by simpa using hrefs, by simpa using hlive⟩

end KnightLang
