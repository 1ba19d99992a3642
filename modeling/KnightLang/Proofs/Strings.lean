import KnightLang.Proofs.Variables.Resolution

/-!
The operations on strings are those on lists of bytes. Each of them fails only for bounds that are
out of range or for a result that is too long, and then changes nothing; otherwise it gives one new
reference to a string with the contents that the operation on lists has. The short cuts for empty
operands, for whole strings and for replacements of nothing by nothing make no difference to that.
-/

namespace KnightLang

namespace Buffer

variable {buffer : Buffer} {position : Nat} {bytes : Bytes} {parts : List Bytes}

/-! ### What a buffer holds -/

theorem toList_copy (hroom : position + bytes.length ≤ buffer.size) :
    (buffer.copy position bytes).toList =
      buffer.toList.take position ++ bytes ++ buffer.toList.drop (position + bytes.length) := by
  induction bytes generalizing buffer position with
  | nil => simp [copy]
  | cons byte rest ih =>
      rw [List.length_cons] at hroom
      have hlt : position < buffer.toList.length := by
        rw [Array.length_toList]
        omega
      have hset : (buffer.setIfInBounds position byte).toList =
          buffer.toList.take position ++ [byte] ++ buffer.toList.drop (position + 1) := by
        rw [Array.toList_setIfInBounds, List.set_eq_take_append_cons_drop, if_pos hlt,
          List.append_assoc, List.singleton_append]
      have hfront : (buffer.toList.take position ++ [byte]).length = position + 1 := by
        rw [List.length_append, List.length_take_of_le hlt.le, List.length_singleton]
      rw [copy, ih (by rw [Array.size_setIfInBounds]; omega), hset, List.take_left' hfront,
        ← hfront, List.drop_length_add_append, List.drop_drop, hfront, List.length_cons,
        List.append_assoc _ [byte], List.singleton_append, Nat.add_assoc, Nat.add_comm 1]

theorem length_front (hroom : position + bytes.length ≤ buffer.size) :
    (buffer.toList.take position ++ bytes).length = position + bytes.length := by
  rw [List.length_append, List.length_take_of_le (by rw [Array.length_toList]; omega)]

theorem take_copy (hroom : position + bytes.length ≤ buffer.size) :
    (buffer.copy position bytes).toList.take (position + bytes.length) =
      buffer.toList.take position ++ bytes := by
  rw [toList_copy hroom, List.take_left' (length_front hroom)]

theorem drop_copy (hroom : position + bytes.length ≤ buffer.size) (further : Nat) :
    (buffer.copy position bytes).toList.drop (position + bytes.length + further) =
      buffer.toList.drop (position + bytes.length + further) := by
  rw [toList_copy hroom, ← length_front hroom, List.drop_length_add_append, List.drop_drop]

theorem toList_copyAll (hroom : position + parts.flatten.length ≤ buffer.size) :
    (buffer.copyAll position parts).toList =
      buffer.toList.take position ++ parts.flatten ++
        buffer.toList.drop (position + parts.flatten.length) := by
  induction parts generalizing buffer position with
  | nil => simp [copyAll]
  | cons part rest ih =>
      rw [List.flatten_cons, List.length_append] at hroom
      rw [copyAll, ih (by rw [size_copy]; omega), take_copy (by omega), drop_copy (by omega),
        List.flatten_cons, List.length_append, List.append_assoc _ part, Nat.add_assoc]

theorem toList_fill (hne : bytes ≠ []) {count : Nat}
    (hsize : buffer.size = position + count * bytes.length) :
    (buffer.fill position bytes).toList =
      buffer.toList.take position ++ (List.replicate count bytes).flatten := by
  have hpos := List.length_pos_iff.mpr hne
  induction count generalizing buffer position with
  | zero =>
      rw [fill, if_neg (by omega)]
      simp [hsize]
  | succ count ih =>
      rw [Nat.succ_mul] at hsize
      rw [fill, if_pos ⟨by omega, hne⟩, ih (by rw [size_copy]; omega), take_copy (by omega),
        List.replicate_succ, List.flatten_cons, List.append_assoc]

/-- A buffer of the length of all parts holds nothing but them. -/
theorem toList_alloc_copyAll {size : Nat} (hsize : parts.flatten.length = size) :
    ((alloc size).copyAll 0 parts).toList = parts.flatten := by
  have halloc : (alloc size).size = size := Array.size_replicate
  rw [toList_copyAll (by omega), List.take_zero, List.nil_append,
    List.drop_of_length_le (by rw [Array.length_toList]; omega), List.append_nil]

theorem toList_alloc_fill (hne : bytes ≠ []) (count : Nat) :
    ((alloc (bytes.length * count)).fill 0 bytes).toList =
      (List.replicate count bytes).flatten := by
  have halloc : (alloc (bytes.length * count)).size = 0 + count * bytes.length := by
    rw [Nat.zero_add, Nat.mul_comm]
    exact Array.size_replicate
  rw [toList_fill hne halloc, List.take_zero, List.nil_append]

end Buffer

namespace Store

/-- A reference that was not there before: to a shared string, to an operand that has one more
reference than before, or to a string that has come new with a single one. -/
inductive NewReference (before after : Store) (operands : List TextRef) : TextRef → Prop where
  | shared (text : StaticText) : NewReference before after operands (.static text)
  | operand {index : Nat} {text : Text} :
      .owned index ∈ operands → before.text? index = some text → text.refs ≠ 0 →
      after.text? index = some { text with refs := text.refs + 1 } →
      NewReference before after operands (.owned index)
  | fresh {index : Nat} {contents : Bytes} :
      before.text? index = none → after.text? index = some { bytes := contents, refs := 1 } →
      NewReference before after operands (.owned index)

/-- One store becomes another by a new reference to a string with the given contents, and by
nothing else. -/
structure Gains (before after : Store) (operands : List TextRef) (contents : Bytes)
    (result : TextRef) : Prop where
  reference : NewReference before after operands result
  contents : after.bytes result = contents
  texts : ∀ index, result ≠ .owned index → after.text? index = before.text? index
  nodes : after.nodes = before.nodes

/-- What an operation on strings does in a store: where it has to fail, it fails with an index error
and changes nothing; elsewhere it gives a new reference to a string with the given contents. -/
structure Performs (action : StoreM (Except Reason TextRef)) (store : Store)
    (operands : List TextRef) (fails : Prop) (contents : Bytes) : Prop where
  error : fails → ∃ reason, reason.kind = .index ∧ action store = .ok (.error reason) store
  ok : ¬fails → ∃ result after, action store = .ok (.ok result) after ∧
    store.Gains after operands contents result

variable {store : Store} {operands : List TextRef} {text first second : TextRef}
  {contents : Bytes} {fails : Prop}

/-! ### New references -/

theorem gains_shared {shared : StaticText} (hcontents : shared.bytes = contents) :
    store.Gains store operands contents (.static shared) where
  reference := .shared shared
  contents := hcontents
  texts _ _ := rfl
  nodes := rfl

theorem gains_operand {index : Nat} {found : Text} (hmem : .owned index ∈ operands)
    (hfound : store.text? index = some found) (hlive : found.refs ≠ 0)
    (hcontents : store.bytes (.owned index) = contents) :
    store.Gains (store.setTextRefs index (found.refs + 1)) operands contents (.owned index) := by
  have hafter : (store.setTextRefs index (found.refs + 1)).text? index =
      some { found with refs := found.refs + 1 } := by
    simp [hfound]
  refine ⟨.operand hmem hfound hlive hafter, ?_, fun other hne => ?_, rfl⟩
  · rw [← hcontents, bytes, bytes, hafter, hfound]
    rfl
  · have hother : index ≠ other := fun heq => hne (congrArg TextRef.owned heq)
    simp [hother]

theorem gains_fresh (store : Store) (operands : List TextRef) (contents : Bytes) :
    store.Gains { store with texts := store.texts.push { bytes := contents, refs := 1 } } operands
      contents (.owned store.texts.size) := by
  have hafter : text? { store with texts := store.texts.push { bytes := contents, refs := 1 } }
      store.texts.size = some { bytes := contents, refs := 1 } := by
    simp
  refine ⟨.fresh Array.getElem?_size hafter, ?_, fun other hne => ?_, rfl⟩
  · rw [bytes, hafter]
    rfl
  · have hother : other ≠ store.texts.size := fun heq => hne (congrArg TextRef.owned heq.symm)
    simp [hother]

/-! ### What operations are made of -/

namespace Performs

theorem observe {action : Store → StoreM (Except Reason TextRef)}
    (haction : Performs (action store) store operands fails contents) :
    Performs (get >>= action) store operands fails contents where
  error := haction.error
  ok := haction.ok

theorem ite {condition : Prop} [Decidable condition] {first second : StoreM (Except Reason TextRef)}
    (hfirst : condition → Performs first store operands fails contents)
    (hsecond : ¬condition → Performs second store operands fails contents) :
    Performs (if condition then first else second) store operands fails contents := by
  by_cases hcondition : condition
  · rw [if_pos hcondition]
    exact hfirst hcondition
  · rw [if_neg hcondition]
    exact hsecond hcondition

theorem refuse {reason : Reason} (hfails : fails) (hkind : reason.kind = .index) :
    Performs (return .error reason) store operands fails contents where
  error _ := ⟨reason, hkind, rfl⟩
  ok hworks := absurd hfails hworks

theorem give {action : StoreM (Except Reason TextRef)} {result : TextRef} {after : Store}
    (hworks : ¬fails) (haction : action store = .ok (.ok result) after)
    (hgains : store.Gains after operands contents result) :
    Performs action store operands fails contents where
  error hfails := absurd hfails hworks
  ok _ := ⟨result, after, haction, hgains⟩

theorem empty (hworks : ¬fails) (hcontents : contents = []) :
    Performs (return .ok (.static .empty)) store operands fails contents :=
  give hworks rfl (gains_shared hcontents.symm)

theorem share (hworks : ¬fails) (husable : store.Usable (.string text)) (hmem : text ∈ operands)
    (hcontents : store.bytes text = contents) :
    Performs (share text) store operands fails contents := by
  cases text with
  | static shared => exact give hworks rfl (gains_shared hcontents)
  | owned index =>
      obtain ⟨found, hfound, hlive⟩ := usable_owned_iff.mp husable
      refine give hworks ?_ (gains_operand hmem hfound hlive hcontents)
      change (retain (.string (.owned index)) >>= fun _ => _) store = _
      simp only [bind, EStateM.bind, retain_owned hfound hlive]
      rfl

theorem add (hworks : ¬fails) {made : Bytes} (hmade : made = contents) :
    Performs (do return .ok (← addText made)) store operands fails contents := by
  subst hmade
  exact give hworks rfl (gains_fresh store operands made)

theorem intern (hworks : ¬fails) {made : Bytes} (hmade : made = contents) :
    Performs (do return .ok (← intern made)) store operands fails contents := by
  subst hmade
  unfold Store.intern
  cases hfind : StaticText.find? made with
  | none => exact add hworks rfl
  | some shared =>
      have hbytes : shared.bytes = made := by simpa using List.find?_some hfind
      exact give hworks rfl (gains_shared hbytes)

end Performs

/-! ### Sizes -/

theorem clamp_eq (size start length : Int) :
    clamp size start length = min length (size - start) := by
  unfold clamp
  split <;> omega

/-- In words of 64 bits the sizes that the operations compare and add up are those numbers, as long
as the strings fit into memory. -/
theorem sizes_in_words {size inserted : Nat} {start length : Int64}
    (hmemory : size + inserted < 2 ^ 63) (hstart : 0 ≤ start.toInt) (hlength : 0 ≤ length.toInt) :
    (Int64.ofNat size ≤ start ↔ (size : Int) ≤ start.toInt) ∧
    (Int64.ofNat size < start ↔ (size : Int) < start.toInt) ∧
    (start.toInt ≤ size →
      (clamp (Int64.ofNat size) start length).toInt = clamp (size : Int) start.toInt length.toInt ∧
      (Int64.ofNat size - clamp (Int64.ofNat size) start length + Int64.ofNat inserted).toInt =
        size - clamp (size : Int) start.toInt length.toInt + inserted) := by
  have hsize : (Int64.ofNat size).toInt = size := Int64.toInt_ofNat_of_lt (by omega)
  have hinserted : (Int64.ofNat inserted).toInt = inserted := Int64.toInt_ofNat_of_lt (by omega)
  refine ⟨by rw [Int64.le_iff_toInt_le, hsize], by rw [Int64.lt_iff_toInt_lt, hsize],
    fun hinside => ?_⟩
  have hrest : (Int64.ofNat size - start).toInt = size - start.toInt := by
    rw [Int64.toInt_sub, hsize]
    exact Int.bmod_eq_of_le (by omega) (by omega)
  have hclamp : (clamp (Int64.ofNat size) start length).toInt =
      clamp (size : Int) start.toInt length.toInt := by
    unfold clamp
    simp only [Int64.lt_iff_toInt_lt, hrest]
    split
    · exact hrest
    · rfl
  refine ⟨hclamp, ?_⟩
  rw [Int64.toInt_add, Int64.toInt_sub, hclamp, hsize, hinserted, Int.bmod_add_bmod]
  rw [clamp_eq]
  exact Int.bmod_eq_of_le (by omega) (by omega)

/-! ### The four operations -/

theorem concat_performs (hfirst : store.Usable (.string first))
    (hsecond : store.Usable (.string second)) :
    Performs (concat first second) store [first, second]
      (store.bytes first ≠ [] ∧ store.bytes second ≠ [] ∧
        2 ^ 30 < (store.bytes first).length + (store.bytes second).length)
      (store.bytes first ++ store.bytes second) := by
  refine .observe (.ite (fun hempty => ?_) fun hfront => .ite (fun hempty => ?_) fun hback => ?_)
  · rw [List.isEmpty_iff] at hempty
    exact .share (fun hfails => hfails.1 hempty) hsecond (by simp) (by simp [hempty])
  · rw [List.isEmpty_iff] at hempty
    exact .share (fun hfails => hfails.2.1 hempty) hfirst (by simp) (by simp [hempty])
  · rw [List.isEmpty_iff] at hfront hback
    refine .ite (fun hlong => ?_) fun hshort => ?_
    · exact .refuse ⟨hfront, hback, hlong⟩ rfl
    · refine .add (fun hfails => hshort hfails.2.2) ?_
      rw [Buffer.toList_alloc_copyAll (by simp)]
      simp

/-- A count exceeds the quotient exactly where the product exceeds the dividend, so that no product
has to be formed. -/
theorem exceeds_quotient_iff {count : Int64} (hcount : 0 ≤ count.toInt) {size : Nat}
    (hsize : 0 < size) :
    count > Int64.ofNat (maxTextLength / size) ↔ 2 ^ 30 < count.toInt * size := by
  have hdivide := Nat.div_lt_iff_lt_mul (x := maxTextLength) (y := count.toInt.toNat) hsize
  have hcast : (count.toInt.toNat : Int) = count.toInt := Int.toNat_of_nonneg hcount
  have hfits : maxTextLength / size < 2 ^ 63 := (Nat.div_le_self _ _).trans_lt (by decide)
  rw [gt_iff_lt, Int64.lt_iff_toInt_lt, Int64.toInt_ofNat_of_lt hfits, ← hcast]
  exact_mod_cast hdivide

theorem replicate_performs (htext : store.Usable (.string text)) (count : Int64) :
    Performs (replicate text count) store [text]
      (count.toInt < 0 ∨ 2 ≤ count.toInt ∧ store.bytes text ≠ [] ∧
        2 ^ 30 < count.toInt * (store.bytes text).length)
      (List.replicate count.toInt.toNat (store.bytes text)).flatten := by
  refine .observe (.ite (fun hnegative => ?_) fun hcount => ?_)
  · exact .refuse (Or.inl (Int64.lt_iff_toInt_lt.mp hnegative)) rfl
  have hcount : 0 ≤ count.toInt := Int.not_lt.mp fun hlt => hcount (Int64.lt_iff_toInt_lt.mpr hlt)
  refine .ite (fun hnothing => ?_) fun hsomething => ?_
  · rw [Bool.or_eq_true, beq_iff_eq, List.isEmpty_iff] at hnothing
    rcases hnothing with rfl | hempty
    · exact .empty (by simp) (by simp)
    · exact .empty (fun hfails => hfails.elim (by omega) fun hmany => hmany.2.1 hempty)
        (by simp [hempty])
  rw [Bool.or_eq_true, beq_iff_eq, List.isEmpty_iff, not_or] at hsomething
  obtain ⟨hne, hcontents⟩ := hsomething
  refine .ite (fun hone => ?_) fun hmany => ?_
  · rw [beq_iff_eq] at hone
    subst hone
    exact .share (by simp) htext (by simp) (by simp)
  have hzero : count.toInt ≠ 0 := fun heq => hne (Int64.toInt_inj.mp heq)
  have hone : count.toInt ≠ 1 := fun heq => hmany (beq_iff_eq.mpr (Int64.toInt_inj.mp heq))
  have hlimit := exceeds_quotient_iff hcount (List.length_pos_iff.mpr hcontents)
  refine .ite (fun hlong => ?_) fun hshort => ?_
  · exact .refuse (Or.inr ⟨by omega, hcontents, hlimit.mp hlong⟩) rfl
  · refine .add (fun hfails => ?_) (Buffer.toList_alloc_fill hcontents _)
    rcases hfails with hnegative | ⟨-, -, hlong⟩
    · omega
    · exact hshort (hlimit.mpr hlong)

/-- Whether a bound of a part is negative, as the operations ask for it. -/
theorem negative_iff (start length : Int64) :
    (decide (start < 0) || decide (length < 0)) = true ↔ start.toInt < 0 ∨ length.toInt < 0 := by
  rw [Bool.or_eq_true, decide_eq_true_eq, decide_eq_true_eq, Int64.lt_iff_toInt_lt,
    Int64.lt_iff_toInt_lt, Int64.toInt_zero]

theorem substring_performs (htext : store.Usable (.string text)) (start length : Int64) :
    Performs (substring text start length) store [text] (start.toInt < 0 ∨ length.toInt < 0)
      (((store.bytes text).drop start.toInt.toNat).take length.toInt.toNat) := by
  refine .observe (.ite (fun hnegative => ?_) fun hbounds => ?_)
  · exact .refuse ((negative_iff start length).mp hnegative) rfl
  rw [negative_iff] at hbounds
  refine .ite (fun hnothing => ?_) fun hsomething => ?_
  · rw [Bool.or_eq_true, decide_eq_true_eq, beq_iff_eq] at hnothing
    refine .empty hbounds ?_
    rcases hnothing with hpast | rfl
    · have hdrop : (store.bytes text).drop start.toInt.toNat = [] :=
        List.drop_eq_nil_of_le (by omega)
      rw [hdrop, List.take_nil]
    · exact List.take_zero
  rw [Bool.or_eq_true, decide_eq_true_eq, not_or] at hsomething
  rw [clamp_eq]
  refine .ite (fun hwhole => ?_) fun _ => .intern hbounds ?_
  · rw [Bool.and_eq_true, beq_iff_eq, beq_iff_eq] at hwhole
    obtain ⟨rfl, htaken⟩ := hwhole
    rw [Int64.toInt_zero] at htaken
    exact .share hbounds htext (by simp) (List.take_of_length_le (by omega)).symm
  · have htaken : (min length.toInt ((store.bytes text).length - start.toInt)).toNat =
        min length.toInt.toNat ((store.bytes text).drop start.toInt.toNat).length := by
      rw [List.length_drop]
      omega
    rw [← Int64.toNat_toInt, htaken, ← List.take_eq_take_min]

/-- The bytes with those that begin at `start` and are at most `length` replaced by others. -/
def spliced (contents : Bytes) (start length : Nat) (inserted : Bytes) : Bytes :=
  contents.take start ++ inserted ++
    contents.drop (start + min length (contents.length - start))

theorem length_spliced {contents : Bytes} {start : Nat} (hstart : start ≤ contents.length)
    (length : Nat) (inserted : Bytes) :
    (spliced contents start length inserted).length =
      contents.length - min length (contents.length - start) + inserted.length := by
  simp only [spliced, List.length_append, List.length_take, List.length_drop]
  omega

theorem toList_alloc_spliced (contents : Bytes) (start length : Nat) (inserted : Bytes) :
    ((Buffer.alloc (spliced contents start length inserted).length).copyAll 0
      [contents.take start, inserted,
        contents.drop (start + min length (contents.length - start))]).toList =
      spliced contents start length inserted := by
  have hparts : [contents.take start, inserted,
      contents.drop (start + min length (contents.length - start))].flatten =
      spliced contents start length inserted := by
    simp [spliced]
  rw [← hparts]
  exact Buffer.toList_alloc_copyAll rfl

theorem splice_performs (htext : store.Usable (.string text)) (start length : Int64)
    {replacement : TextRef} (hreplacement : store.Usable (.string replacement)) :
    Performs (splice text start length replacement) store [text, replacement]
      (start.toInt < 0 ∨ length.toInt < 0 ∨ (store.bytes text).length < start.toInt ∨
        2 ^ 30 < (spliced (store.bytes text) start.toInt.toNat length.toInt.toNat
          (store.bytes replacement)).length)
      (spliced (store.bytes text) start.toInt.toNat length.toInt.toNat
        (store.bytes replacement)) := by
  refine .observe (.ite (fun hnegative => ?_) fun hbounds => ?_)
  · rcases (negative_iff start length).mp hnegative with hstart | hlength
    · exact .refuse (Or.inl hstart) rfl
    · exact .refuse (Or.inr (Or.inl hlength)) rfl
  rw [negative_iff, not_or] at hbounds
  simp only [← Int64.toNat_toInt]
  refine .ite (fun hpast => .refuse (Or.inr (Or.inr (Or.inl hpast))) rfl) fun hinside => ?_
  have htotal : (store.bytes text).length -
      min length.toInt ((store.bytes text).length - start.toInt) +
        (store.bytes replacement).length =
      ((spliced (store.bytes text) start.toInt.toNat length.toInt.toNat
        (store.bytes replacement)).length : Int) := by
    rw [length_spliced (by omega)]
    omega
  simp only [hbounds.1, hbounds.2, hinside, false_or, clamp_eq, htotal]
  refine .ite (fun hnothing => ?_) fun _ => .ite (fun hlong => ?_) fun hshort => ?_
  · rw [beq_iff_eq, Int.natCast_eq_zero] at hnothing
    exact .empty (by omega) (List.length_eq_zero_iff.mp hnothing)
  · exact .refuse (Int.ofNat_lt.mp hlong) rfl
  have hshort := fun hlong => hshort (Int.ofNat_lt.mpr hlong)
  refine .ite (fun hall => ?_) fun _ => .ite (fun hsame => ?_) fun _ => ?_
  · rw [beq_iff_eq] at hall
    refine .share hshort hreplacement (by simp) ?_
    rw [spliced, List.drop_eq_nil_of_le (by omega), List.append_nil,
      List.take_eq_nil_iff.mpr (by omega), List.nil_append]
  · rw [Bool.and_eq_true, beq_iff_eq, List.isEmpty_iff] at hsame
    refine .share hshort htext (by simp) ?_
    have hnone : min length.toInt.toNat ((store.bytes text).length - start.toInt.toNat) = 0 := by
      omega
    rw [spliced, hsame.2, hnone, List.append_nil, Nat.add_zero, List.take_append_drop]
  · refine .add hshort ?_
    have hback : (start.toInt + min length.toInt ((store.bytes text).length - start.toInt)).toNat =
        start.toInt.toNat +
          min length.toInt.toNat ((store.bytes text).length - start.toInt.toNat) := by
      omega
    rw [Int.toNat_natCast, hback]
    exact toList_alloc_spliced ..

/-- The operations on strings that can be used, for all bounds: what each of them gives is given by
lists of bytes, and it fails exactly where it has to. -/
theorem text_operations_exact (hfirst : store.Usable (.string first))
    (hsecond : store.Usable (.string second)) (count start length : Int64) :
    Performs (concat first second) store [first, second]
      (store.bytes first ≠ [] ∧ store.bytes second ≠ [] ∧
        2 ^ 30 < (store.bytes first).length + (store.bytes second).length)
      (store.bytes first ++ store.bytes second) ∧
    Performs (replicate first count) store [first]
      (count.toInt < 0 ∨ 2 ≤ count.toInt ∧ store.bytes first ≠ [] ∧
        2 ^ 30 < count.toInt * (store.bytes first).length)
      (List.replicate count.toInt.toNat (store.bytes first)).flatten ∧
    Performs (substring first start length) store [first] (start.toInt < 0 ∨ length.toInt < 0)
      (((store.bytes first).drop start.toInt.toNat).take length.toInt.toNat) ∧
    Performs (splice first start length second) store [first, second]
      (start.toInt < 0 ∨ length.toInt < 0 ∨ (store.bytes first).length < start.toInt ∨
        2 ^ 30 < (spliced (store.bytes first) start.toInt.toNat length.toInt.toNat
          (store.bytes second)).length)
      (spliced (store.bytes first) start.toInt.toNat length.toInt.toNat (store.bytes second)) :=
  ⟨concat_performs hfirst hsecond, replicate_performs hfirst count,
    substring_performs hfirst start length, splice_performs hfirst start length hsecond⟩

/-- A store with one string that has two references. -/
def twiceHeld : Store := { texts := #[{ bytes := "abc", refs := 2 }] }

/-- The largest bounds: a part that would end far behind the string ends with it, the string cannot
be repeated that often, and putting nothing in the place of nothing counts one reference more. -/
theorem text_operations_exact_extremes :
    twiceHeld.Usable (.string (.owned 0)) ∧ twiceHeld.Usable (.string (.static .empty)) ∧
    (∃ reason, reason.kind = .index ∧
      replicate (.owned 0) Int64.maxValue twiceHeld = .ok (.error reason) twiceHeld) ∧
    (∃ result after,
      substring (.owned 0) 1 Int64.maxValue twiceHeld = .ok (.ok result) after ∧
      twiceHeld.Gains after [.owned 0] "bc" result) ∧
    ∃ result after,
      splice (.owned 0) 3 Int64.maxValue (.static .empty) twiceHeld = .ok (.ok result) after ∧
      twiceHeld.Gains after [.owned 0, .static .empty] "abc" result := by
  have hfirst : twiceHeld.Usable (.string (.owned 0)) := Or.inr (by decide)
  have hsecond : twiceHeld.Usable (.string (.static .empty)) := Or.inl rfl
  obtain ⟨-, hreplicate, hsubstring, -⟩ :=
    text_operations_exact hfirst hsecond Int64.maxValue 1 Int64.maxValue
  obtain ⟨-, -, -, hsplice⟩ := text_operations_exact hfirst hsecond 0 3 Int64.maxValue
  refine ⟨hfirst, hsecond, hreplicate.error ?_, hsubstring.ok ?_, hsplice.ok ?_⟩
  · decide
  · decide
  · decide

end Store

end KnightLang
