import KnightLang.Proofs.Decimal
import KnightLang.Proofs.Variables.Resolution

/-!
What literals convert to, and what a conversion does to the references of a literal: the reference
that an evaluation takes to a literal is given back before the conversion ends.
-/

namespace KnightLang

namespace Store

/-- The contents of the string that a literal converts to. -/
def literalBytes (store : Store) : Value → Bytes
  | .boolean flag => (StaticText.ofBool flag).bytes
  | .number word => Bytes.ofInt64 word
  | .string text => store.bytes text
  | _ => StaticText.null.bytes

/-! ### References taken and given back -/

/-- A store in which there is one more reference to the payload of a value, which can be given
back. -/
structure Lends (store : Store) (value : Value) (after : Store) : Prop where
  retain_eq : retain value store = .ok ⟨⟩ after
  release_eq : release value after = .ok ⟨⟩ store
  bytes_eq (text : TextRef) : after.bytes text = store.bytes text
  usable {other : Value} : store.Usable other → after.Usable other

variable {store after : Store} {index : Nat} {value : Value} {text : TextRef}

theorem setTextRefs_setTextRefs (store : Store) (index refs more : Nat) :
    (store.setTextRefs index more).setTextRefs index refs = store.setTextRefs index refs := by
  simp only [setTextRefs, mk.injEq, and_true]
  refine Array.ext_getElem? fun other => ?_
  simp only [Array.getElem?_modify]
  split <;> simp [Function.comp_def]

theorem setTextRefs_refs {found : Text} (hfound : store.text? index = some found) :
    store.setTextRefs index found.refs = store := by
  obtain ⟨texts, nodes⟩ := store
  simp only [setTextRefs, mk.injEq, and_true]
  refine Array.ext_getElem? fun other => ?_
  rw [Array.getElem?_modify]
  split
  · next heq =>
      subst heq
      exact congrArg (Option.map _) hfound |>.trans hfound.symm
  · rfl

theorem bytes_setTextRefs (store : Store) (index refs : Nat) (text : TextRef) :
    (store.setTextRefs index refs).bytes text = store.bytes text := by
  cases text with
  | static shared => rfl
  | owned other =>
      simp only [bytes, text?_setTextRefs]
      split <;> simp [Function.comp_def]

theorem lends_of_isPlain (hplain : value.isPlain = true) (store : Store) :
    store.Lends value store where
  retain_eq := retain_of_isPlain hplain
  release_eq := releaseWithin_of_isPlain _ hplain
  bytes_eq _ := rfl
  usable := id

theorem Lends.eq_of_isPlain (hlends : store.Lends value after) (hplain : value.isPlain = true) :
    after = store := by
  have hretain : retain value store = .ok ⟨⟩ store := retain_of_isPlain hplain
  cases hretain.symm.trans hlends.retain_eq
  rfl

theorem lends_owned {found : Text} (hfound : store.text? index = some found)
    (hlive : found.refs ≠ 0) :
    store.Lends (.string (.owned index)) (store.setTextRefs index (found.refs + 1)) where
  retain_eq := retain_owned hfound hlive
  release_eq := by
    have hcounted : (store.setTextRefs index (found.refs + 1)).text? index =
        some { found with refs := found.refs + 1 } := by
      simp [hfound]
    have hrefs : found.refs - 1 + 1 = found.refs := Nat.succ_pred_eq_of_ne_zero hlive
    have hshared : found.refs + 1 = (found.refs - 1) + 2 := by omega
    rw [release_string, releaseText_shared hcounted hshared, setTextRefs_setTextRefs, hrefs,
      setTextRefs_refs hfound]
  bytes_eq := store.bytes_setTextRefs index _
  usable {other} husable := by
    induction other using Value.payloadCases with
    | plain other hplain => exact Or.inl hplain
    | text other => exact husable.setTextRefs (Nat.succ_ne_zero _)
    | application other => exact husable

/-- Any literal that is usable can get one more reference. -/
theorem Usable.exists_lends (husable : store.Usable value) (hliteral : value.isLiteral = true) :
    ∃ after, store.Lends value after := by
  induction value using Value.payloadCases with
  | plain value hplain => exact ⟨store, lends_of_isPlain hplain store⟩
  | text index =>
      obtain ⟨found, hfound, hlive⟩ := usable_owned_iff.mp husable
      exact ⟨_, lends_owned hfound hlive⟩
  | application index => exact absurd hliteral Bool.false_ne_true

/-! ### The literal that is converted -/

theorem Lends.literalBoolean_eq (hlends : store.Lends value after) (literal : Value) :
    after.literalBoolean literal = store.literalBoolean literal := by
  cases literal with
  | string text => simp only [literalBoolean, hlends.bytes_eq]
  | null | boolean flag | number word | «variable» cell | expr node => rfl

theorem Lends.literalNumber_eq (hlends : store.Lends value after) (literal : Value) :
    after.literalNumber literal = store.literalNumber literal := by
  cases literal with
  | string text => simp only [literalNumber, hlends.bytes_eq]
  | null | boolean flag | number word | «variable» cell | expr node => rfl

theorem Lends.literalText_string (hlends : store.Lends (.string text) after) :
    literalText (.string text) store = .ok text after := by
  change (retain (.string text) >>= fun _ => return text) store = _
  simp only [bind, EStateM.bind, hlends.retain_eq]
  rfl

/-- The string of a literal has the contents it should have, and is the same whether or not one
more reference to the literal is taken for as long as the conversion lasts. -/
theorem Usable.exists_literalText (husable : store.Usable value) (hliteral : value.isLiteral = true)
    (hlends : store.Lends value after) :
    ∃ text last, literalText value store = .ok text last ∧
      last.bytes text = store.literalBytes value ∧
      ∃ middle, literalText value after = .ok text middle ∧ release value middle = .ok ⟨⟩ last := by
  have hplain (hplain : value.isPlain = true) (text : TextRef) (last : Store)
      (htext : literalText value store = .ok text last) :
      ∃ middle, literalText value after = .ok text middle ∧
        release value middle = .ok ⟨⟩ last := by
    obtain rfl := hlends.eq_of_isPlain hplain
    exact ⟨last, htext, releaseWithin_of_isPlain _ hplain⟩
  cases value with
  | null => exact ⟨_, store, rfl, rfl, hplain rfl _ _ rfl⟩
  | boolean flag => exact ⟨_, store, rfl, rfl, hplain rfl _ _ rfl⟩
  | number word =>
      obtain ⟨text, last, htext, hbytes⟩ := exists_numberText word store
      exact ⟨text, last, htext, hbytes, hplain rfl text last htext⟩
  | string text =>
      obtain ⟨middle, hmiddle⟩ := (hlends.usable husable).exists_lends hliteral
      refine ⟨text, after, hlends.literalText_string, hlends.bytes_eq text, middle, ?_⟩
      exact ⟨hmiddle.literalText_string, hmiddle.release_eq⟩
  | «variable» cell | expr node => exact absurd hliteral Bool.false_ne_true

end Store

theorem Run.release_of_lends {machine : Machine} {value : Value} {after : Store}
    (hlends : machine.store.Lends value after) :
    Run.release value { machine with store := after } = .ok ⟨⟩ machine :=
  Run.onStore_ok hlends.release_eq

/-! ### Literals that are converted -/

namespace Evaluator

variable [Custody] {evaluator : Evaluator} {machine : Machine} {literal : Value}
  (hliteral : literal.isLiteral = true)

include hliteral

theorem run_of_isLiteral {after : Store}
    (hretain : Custody.retain literal machine.store = .ok ⟨⟩ after) :
    evaluator.run literal machine = .ok literal { machine with store := after } := by
  cases literal with
  | «variable» cell | expr node => exact absurd hliteral Bool.false_ne_true
  | null | boolean flag | number word | string text => exact Run.bind_ok (Run.onStore_ok hretain)

theorem withLiteral_of_isLiteral {α : Type} (action : Value → Run α) :
    evaluator.withLiteral literal action = action literal := if_pos hliteral

theorem toBoolean_of_isLiteral : evaluator.toBoolean literal machine =
    .ok (machine.store.literalBoolean literal) machine := by
  unfold toBoolean
  rw [withLiteral_of_isLiteral hliteral]
  rfl

theorem toNumber_of_isLiteral : evaluator.toNumber literal machine =
    .ok (machine.store.literalNumber literal) machine := by
  unfold toNumber
  rw [withLiteral_of_isLiteral hliteral]
  rfl

theorem toText_of_isLiteral :
    evaluator.toText literal = Run.onStore (Store.literalText literal) :=
  withLiteral_of_isLiteral hliteral _

end Evaluator

end KnightLang
