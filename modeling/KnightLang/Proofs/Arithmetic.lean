import KnightLang.Proofs.Lockstep
import Mathlib.Tactic.Tauto

/-!
Arithmetic on words against arithmetic on integers. The test that finds an overflow is another one
for every operator; each of them finds exactly the results that no word can hold.
-/

namespace KnightLang

namespace Arithmetic

/-- An integer that a word can hold. -/
def Fits (exact : Int) : Prop := -2 ^ 63 ≤ exact ∧ exact < 2 ^ 63

theorem fits_toInt (word : Int64) : Fits word.toInt := ⟨word.le_toInt, word.toInt_lt⟩

theorem bmod_eq_self_iff {exact : Int} : exact.bmod (2 ^ 64) = exact ↔ Fits exact := by
  rw [Int.bmod_def]
  unfold Fits
  omega

theorem toInt_ne_zero {word : Int64} (hword : word ≠ 0) : word.toInt ≠ 0 :=
  fun heq => hword (Int64.toInt_inj.mp heq)

/-! ### Sums and differences: the signs tell -/

theorem toInt_neg_iff (word : Int64) : word.toInt < 0 ↔ word.toBitVec.msb = true := by
  rw [BitVec.msb_eq_toInt, decide_eq_true_iff]
  rfl

theorem toInt_and_neg_iff (left right : Int64) :
    (left &&& right).toInt < 0 ↔ left.toInt < 0 ∧ right.toInt < 0 := by
  simp only [toInt_neg_iff, Int64.toBitVec_and, BitVec.msb_and, Bool.and_eq_true]

theorem toInt_xor_neg_iff (left right : Int64) :
    (left ^^^ right).toInt < 0 ↔ ¬(left.toInt < 0 ↔ right.toInt < 0) := by
  simp only [toInt_neg_iff, Int64.toBitVec_xor, BitVec.msb_xor]
  cases left.toBitVec.msb <;> cases right.toBitVec.msb <;> decide

/-- A sum overflows if its sign is that of neither operand. -/
theorem sum_signs_iff (left right : Int64) :
    ((left ^^^ (left + right)) &&& (right ^^^ (left + right))) < 0 ↔
      ¬Fits (left.toInt + right.toInt) := by
  have hleft := fits_toInt left
  have hright := fits_toInt right
  rw [Int64.lt_iff_toInt_lt, Int64.toInt_zero, toInt_and_neg_iff, toInt_xor_neg_iff,
    toInt_xor_neg_iff, Int64.toInt_add, Int.bmod_def]
  unfold Fits at *
  omega

/-- A difference overflows if the operands differ in sign and it has not that of the first. -/
theorem difference_signs_iff (left right : Int64) :
    ((left ^^^ right) &&& (left ^^^ (left - right))) < 0 ↔
      ¬Fits (left.toInt - right.toInt) := by
  have hleft := fits_toInt left
  have hright := fits_toInt right
  rw [Int64.lt_iff_toInt_lt, Int64.toInt_zero, toInt_and_neg_iff, toInt_xor_neg_iff,
    toInt_xor_neg_iff, Int64.toInt_sub, Int.bmod_def]
  unfold Fits at *
  omega

/-! ### Quotients and products: one quotient overflows, and dividing a product tells -/

/-- A quotient fits, but for that of the least word by minus one. -/
theorem fits_tdiv_iff {left right : Int} (hleft : Fits left) :
    Fits (left.tdiv right) ↔ ¬(left = -2 ^ 63 ∧ right = -1) := by
  have hle : (left.tdiv right).natAbs ≤ left.natAbs := Int.natAbs_tdiv_le_natAbs left right
  unfold Fits at *
  by_cases hlarge : 2 ≤ right.natAbs
  · -- A divisor of at least two halves the magnitude.
    have hhalf : (left.tdiv right).natAbs ≤ left.natAbs / 2 := by
      rw [Int.natAbs_tdiv]
      exact Nat.div_le_div_left hlarge (by decide)
    omega
  · have hunits : right = 0 ∨ right = 1 ∨ right = -1 := by omega
    rcases hunits with rfl | rfl | rfl
    · simp
    · rw [Int.tdiv_one]
      omega
    · rw [Int.tdiv_neg, Int.tdiv_one]
      omega

/-- Dividing a wrapped product by one factor gives back the other only if nothing was lost, but for
a quotient that overflows itself. -/
theorem quotient_eq_iff {left right : Int64} (hleft : left ≠ 0)
    (hcorner : ¬(left = -1 ∧ right = least)) :
    left * right / left = right ↔ Fits (left.toInt * right.toInt) := by
  have hzero := toInt_ne_zero hleft
  constructor
  · intro hquotient
    have hword := congrArg Int64.toInt hquotient
    rw [Int64.toInt_div] at hword
    have hfits : Fits ((left * right).toInt.tdiv left.toInt) := by
      rw [fits_tdiv_iff (fits_toInt _)]
      rintro ⟨hmin, hminus⟩
      rw [hmin, hminus] at hword
      exact hcorner ⟨Int64.toInt_inj.mp hminus, Int64.toInt_inj.mp hword.symm⟩
    rw [bmod_eq_self_iff.mpr hfits] at hword
    -- The remainder is a multiple of 2^64 that is smaller than a word, so there is none.
    have hdivision := Int.mul_tdiv_add_tmod (left * right).toInt left.toInt
    rw [hword] at hdivision
    have hrest : ((left * right).toInt.tmod left.toInt).natAbs < left.toInt.natAbs := by
      rw [Int.natAbs_tmod]
      exact Nat.mod_lt _ (by omega)
    have hmultiple : ((2 ^ 64 : Nat) : Int) ∣
        left.toInt * right.toInt - (left.toInt * right.toInt).bmod (2 ^ 64) :=
      Int.dvd_self_sub_bmod
    have hproduct := Int64.toInt_mul left right
    have hfactor := fits_toInt left
    have hwrapped := fits_toInt (left * right)
    unfold Fits at *
    generalize left.toInt * right.toInt = exact at *
    omega
  · intro hfits
    have hproduct : (left * right).toInt = left.toInt * right.toInt := by
      rw [Int64.toInt_mul, bmod_eq_self_iff.mpr hfits]
    apply Int64.toInt_inj.mp
    rw [Int64.toInt_div, hproduct, Int.mul_tdiv_cancel_left _ hzero]
    exact bmod_eq_self_iff.mpr (fits_toInt right)

theorem product_lost_iff (left right : Int64) :
    (left != 0 && (left * right / left != right || (left == -1 && right == least))) = true ↔
      ¬Fits (left.toInt * right.toInt) := by
  by_cases hzero : left = 0
  · subst hzero
    simp [Fits]
  by_cases hcorner : left = -1 ∧ right = least
  · obtain ⟨rfl, rfl⟩ := hcorner
    unfold Fits
    decide
  · rw [← quotient_eq_iff hzero hcorner]
    simp only [Bool.and_eq_true, Bool.or_eq_true, bne_iff_ne, beq_iff_eq]
    tauto

/-! ### Every operator against its exact result -/

/-- What an operation on words has to do with its exact result: checked, it overflows if that does
not fit and gives it otherwise; unchecked, it gives it modulo 2^64. -/
structure Computes (operation : Bool → Except Reason Int64) (exact : Int) : Prop where
  overflows : (∃ reason, operation true = .error reason ∧ reason.kind = .overflow) ↔ ¬Fits exact
  checked : Fits exact → ∃ word, operation true = .ok word ∧ word.toInt = exact
  unchecked : ∃ word, operation false = .ok word ∧ word.toInt = exact.bmod (2 ^ 64)

theorem computes_of_guarded {lost : Bool} {reason : Reason} {word : Int64} {exact : Int}
    (hlost : lost = true ↔ ¬Fits exact) (hword : word.toInt = exact.bmod (2 ^ 64))
    (hkind : reason.kind = .overflow) :
    Computes (fun checked => if checked && lost then .error reason else .ok word) exact where
  overflows := by
    rw [← hlost]
    cases lost with
    | false => simp
    | true => simpa using hkind
  checked hfits := by
    have hkept : lost = false := by simpa [hfits] using hlost
    exact ⟨word, by simp [hkept], hword.trans (bmod_eq_self_iff.mpr hfits)⟩
  unchecked := ⟨word, rfl, hword⟩

theorem computes_add (left right : Int64) :
    Computes (fun checked => add checked left right) (left.toInt + right.toInt) := by
  refine computes_of_guarded ?_ (Int64.toInt_add left right) rfl
  rw [decide_eq_true_iff]
  exact sum_signs_iff left right

theorem computes_subtract (left right : Int64) :
    Computes (fun checked => subtract checked left right) (left.toInt - right.toInt) := by
  refine computes_of_guarded ?_ (Int64.toInt_sub left right) rfl
  rw [decide_eq_true_iff]
  exact difference_signs_iff left right

theorem computes_multiply (left right : Int64) :
    Computes (fun checked => multiply checked left right) (left.toInt * right.toInt) := by
  simp only [multiply, Bool.and_assoc]
  exact computes_of_guarded (product_lost_iff left right) (Int64.toInt_mul left right) rfl

theorem computes_divide (left : Int64) {right : Int64} (hright : right ≠ 0) :
    Computes (fun checked => divide checked left right) (left.toInt.tdiv right.toInt) := by
  simp only [divide, beq_eq_false_iff_ne.mpr hright, Bool.false_eq_true, ↓reduceIte,
    Bool.and_assoc]
  refine computes_of_guarded ?_ (Int64.toInt_div left right) rfl
  rw [fits_tdiv_iff (fits_toInt left), not_not, Bool.and_eq_true, beq_iff_eq, beq_iff_eq]
  exact and_congr Int64.toInt_inj.symm Int64.toInt_inj.symm

theorem computes_negate (operand : Int64) :
    Computes (fun checked => negate checked operand) (-operand.toInt) := by
  refine computes_of_guarded ?_ (Int64.toInt_neg operand) rfl
  have hoperand := fits_toInt operand
  have hleast : least.toInt = -2 ^ 63 := Int64.toInt_minValue
  rw [beq_iff_eq, ← Int64.toInt_inj, hleast]
  unfold Fits at *
  omega

theorem remainder_of_ne_zero (left : Int64) {right : Int64} (hright : right ≠ 0) :
    remainder left right = .ok (left % right) := by
  simp only [remainder, beq_eq_false_iff_ne.mpr hright, Bool.false_eq_true, ↓reduceIte]

theorem toInt_rem_natAbs_lt (left : Int64) {right : Int64} (hright : right ≠ 0) :
    (left % right).toInt.natAbs < right.toInt.natAbs := by
  have hzero := toInt_ne_zero hright
  rw [Int64.toInt_mod, Int.natAbs_tmod]
  exact Nat.mod_lt _ (by omega)

theorem toInt_rem_sign {left right : Int64} (hrest : left % right ≠ 0) :
    (left % right).toInt.sign = left.toInt.sign := by
  have hzero := toInt_ne_zero hrest
  rw [Int64.toInt_mod] at hzero ⊢
  rw [Int.sign_tmod, if_neg]
  exact fun hdvd => hzero (Int.tmod_eq_zero_of_dvd hdvd)

theorem eq_div_of_divide {checked : Bool} {left right quotient : Int64}
    (hdivide : divide checked left right = .ok quotient) : quotient = left / right := by
  unfold divide at hdivide
  split at hdivide
  · cases hdivide
  · split at hdivide
    · cases hdivide
    · cases hdivide
      rfl

/-- A quotient and the remainder make up the dividend, also where the quotient wraps. -/
theorem div_mul_add_rem (left right : Int64) : left / right * right + left % right = left := by
  apply Int64.toInt_inj.mp
  calc
    (left / right * right + left % right).toInt =
        (((left.toInt.tdiv right.toInt).bmod (2 ^ 64) * right.toInt).bmod (2 ^ 64) +
          left.toInt.tmod right.toInt).bmod (2 ^ 64) := by
      rw [Int64.toInt_add, Int64.toInt_mul, Int64.toInt_div, Int64.toInt_mod]
    _ = (left.toInt.tdiv right.toInt * right.toInt +
          left.toInt.tmod right.toInt).bmod (2 ^ 64) := by
      rw [Int.bmod_mul_bmod, Int.bmod_add_bmod]
    _ = left.toInt := by
      rw [Int.tdiv_mul_add_tmod, bmod_eq_self_iff.mpr (fits_toInt left)]

end Arithmetic

/-! ### The operators of the language -/

open Arithmetic

/-- What an operation of the language has to do with its exact result in a machine, which it leaves
as it is. -/
structure Machine.Calculates (machine : Machine) (operation : Run Value) (exact : Int) : Prop where
  overflows :
    (∃ error, operation { machine with checked := true } =
        .error (.error error) { machine with checked := true } ∧ error.kind = .overflow) ↔
      ¬Fits exact
  checked : Fits exact →
    ∃ word, operation { machine with checked := true } =
        .ok (.number word) { machine with checked := true } ∧ word.toInt = exact
  unchecked :
    ∃ word, operation { machine with checked := false } =
        .ok (.number word) { machine with checked := false } ∧ word.toInt = exact.bmod (2 ^ 64)

/-- An operation of the language works out a number, or fails, and does nothing else. -/
def Machine.Answers (machine : Machine) (operation : Run Value)
    (result : Bool → Except Reason Int64) : Prop :=
  ∀ checked, operation { machine with checked } =
    match result checked with
    | .ok word => .ok (.number word) { machine with checked }
    | .error reason => .error (.error (.raise reason)) { machine with checked }

namespace Machine.Answers

variable {machine : Machine} {operation : Run Value} {result : Bool → Except Reason Int64}

theorem of_ok {checked : Bool} {word : Int64} (hanswers : machine.Answers operation result)
    (hresult : result checked = .ok word) :
    operation { machine with checked } = .ok (.number word) { machine with checked } := by
  rw [hanswers, hresult]

theorem of_error {checked : Bool} {reason : Reason} (hanswers : machine.Answers operation result)
    (hresult : result checked = .error reason) :
    operation { machine with checked } =
      .error (.error (.raise reason)) { machine with checked } := by
  rw [hanswers, hresult]

theorem calculates {exact : Int} (hanswers : machine.Answers operation result)
    (hcomputes : Computes result exact) : machine.Calculates operation exact where
  overflows := by
    rw [← hcomputes.overflows]
    constructor
    · rintro ⟨error, herror, hkind⟩
      cases hresult : result true with
      | ok word =>
          rw [hanswers.of_ok hresult] at herror
          cases herror
      | error reason =>
          rw [hanswers.of_error hresult] at herror
          cases herror
          exact ⟨reason, rfl, hkind⟩
    · rintro ⟨reason, hresult, hkind⟩
      exact ⟨_, hanswers.of_error hresult, hkind⟩
  checked hfits := by
    obtain ⟨word, hresult, hexact⟩ := hcomputes.checked hfits
    exact ⟨word, hanswers.of_ok hresult, hexact⟩
  unchecked := by
    obtain ⟨word, hresult, hexact⟩ := hcomputes.unchecked
    exact ⟨word, hanswers.of_ok hresult, hexact⟩

end Machine.Answers

namespace Evaluator

@[simp]
theorem operand_apply (node position : Nat) (machine : Machine) :
    operand node position machine = .ok (machine.store.arg node position) machine := rfl

@[simp]
theorem deferring_release_number {α : Type} (word : Int64) (action : Run α) (machine : Machine) :
    Run.deferring (Run.release (.number word)) action machine = action machine := by
  have hrelease (machine : Machine) : Run.release (.number word) machine = .ok ⟨⟩ machine :=
    Run.onStore_ok (Store.releaseWithin_of_isPlain _ rfl)
  unfold Run.deferring
  cases action machine with
  | ok value after => simp only [hrelease]
  | error stop after => simp only [hrelease]

theorem answer_apply (result : Except Reason Int64) (machine : Machine) :
    (do return Value.number (← Run.ofExcept result) : Run Value) machine =
      match result with
      | .ok word => .ok (.number word) machine
      | .error reason => .error (.error (.raise reason)) machine := by
  cases result with
  | ok word => rfl
  | error reason => rfl

section Operands

variable (evaluator : Evaluator) {machine : Machine} {node : Nat} {left right : Int64}

@[simp]
theorem toNumber_number (word : Int64) (machine : Machine) :
    evaluator.toNumber (.number word) machine = .ok word machine := rfl

@[simp]
theorem run_number (word : Int64) (machine : Machine) :
    evaluator.run (.number word) machine = .ok (.number word) machine := rfl

theorem answers_negate (hleft : machine.store.arg node 0 = .number left) :
    machine.Answers (evaluator.negate node) fun checked => Arithmetic.negate checked left := by
  intro checked
  rw [← answer_apply]
  simp only [negate, bind, EStateM.bind, operand_apply, hleft, toNumber_number]
  rfl

variable (hleft : machine.store.arg node 0 = .number left)
  (hright : machine.store.arg node 1 = .number right)

include hleft hright

theorem answers_arithmetic (operation : Bool → Int64 → Int64 → Except Reason Int64) :
    machine.Answers (evaluator.arithmetic node operation) fun checked =>
      operation checked left right := by
  intro checked
  rw [← answer_apply]
  simp only [arithmetic, numbers, bind, EStateM.bind, operand_apply, hleft, hright, Nat.zero_add,
    toNumber_number]
  rfl

theorem answers_add :
    machine.Answers (evaluator.add node) fun checked => Arithmetic.add checked left right := by
  intro checked
  rw [← answer_apply]
  simp only [add, withResult, bind, EStateM.bind, operand_apply, hleft, hright, run_number,
    deferring_release_number, toNumber_number]
  rfl

theorem answers_multiply :
    machine.Answers (evaluator.multiply node) fun checked =>
      Arithmetic.multiply checked left right := by
  intro checked
  rw [← answer_apply]
  simp only [multiply, withResult, bind, EStateM.bind, operand_apply, hleft, hright, run_number,
    deferring_release_number, toNumber_number]
  rfl

/-- The operators of the language, applied to any two numbers: each gives its exact result or
overflows where that does not fit, and unchecked wraps around; only a zero divisor fails otherwise;
and the remainder, which never overflows, is smaller than the divisor, has the sign of the dividend
and makes up the dividend together with the quotient. -/
theorem perform_exact :
    machine.Calculates (evaluator.perform node .add) (left.toInt + right.toInt) ∧
    machine.Calculates (evaluator.perform node .subtract) (left.toInt - right.toInt) ∧
    machine.Calculates (evaluator.perform node .multiply) (left.toInt * right.toInt) ∧
    machine.Calculates (evaluator.perform node .negate) (-left.toInt) ∧
    (right ≠ 0 →
      machine.Calculates (evaluator.perform node .divide) (left.toInt.tdiv right.toInt) ∧
      ∃ rest : Int64,
        rest.toInt.natAbs < right.toInt.natAbs ∧
        (rest ≠ 0 → rest.toInt.sign = left.toInt.sign) ∧
        ∀ checked,
          evaluator.perform node .remainder { machine with checked } =
            .ok (.number rest) { machine with checked } ∧
          ∀ quotient after, evaluator.perform node .divide { machine with checked } =
            .ok (.number quotient) after → quotient * right + rest = left) ∧
    (right = 0 → ∀ checked,
      (∃ error, evaluator.perform node .divide { machine with checked } =
        .error (.error error) { machine with checked } ∧ error.kind = .divisionByZero) ∧
      ∃ error, evaluator.perform node .remainder { machine with checked } =
        .error (.error error) { machine with checked } ∧ error.kind = .moduloByZero) := by
  have hdivide := answers_arithmetic evaluator hleft hright Arithmetic.divide
  have hremainder := answers_arithmetic evaluator hleft hright fun _ => Arithmetic.remainder
  refine ⟨(answers_add evaluator hleft hright).calculates (computes_add left right),
    (answers_arithmetic evaluator hleft hright _).calculates (computes_subtract left right),
    (answers_multiply evaluator hleft hright).calculates (computes_multiply left right),
    (answers_negate evaluator hleft).calculates (computes_negate left), ?_, ?_⟩
  · intro hzero
    refine ⟨hdivide.calculates (computes_divide left hzero), left % right,
      toInt_rem_natAbs_lt left hzero, toInt_rem_sign, fun checked => ⟨?_, ?_⟩⟩
    · exact hremainder.of_ok (remainder_of_ne_zero left hzero)
    · intro quotient after hquotient
      cases hresult : Arithmetic.divide checked left right with
      | error reason =>
          rw [perform, hdivide.of_error hresult] at hquotient
          cases hquotient
      | ok word =>
          rw [perform, hdivide.of_ok hresult] at hquotient
          cases hquotient
          rw [eq_div_of_divide hresult]
          exact div_mul_add_rem left right
  · rintro rfl checked
    exact ⟨⟨_, hdivide.of_error rfl, rfl⟩, ⟨_, hremainder.of_error rfl, rfl⟩⟩

end Operands

/-- A machine with one application, of the least word and minus one. -/
def extremes : Machine :=
  { store :=
      { nodes := #[{ function := Builtin.function 47 "/" 2 .divide
                     args := [.number least, .number (-1)], refs := 1 }] } }

theorem perform_exact_extremes :
    (∃ error, (within 0 extremes).perform 0 .divide { extremes with checked := true } =
      .error (.error error) { extremes with checked := true } ∧ error.kind = .overflow) ∧
    (∃ word : Int64, (within 0 extremes).perform 0 .divide { extremes with checked := false } =
      .ok (.number word) { extremes with checked := false } ∧ word.toInt = -2 ^ 63) ∧
    ∃ word : Int64, (within 0 extremes).perform 0 .add { extremes with checked := false } =
      .ok (.number word) { extremes with checked := false } ∧ word.toInt = 2 ^ 63 - 1 := by
  have hleft : extremes.store.arg 0 0 = .number least := rfl
  have hright : extremes.store.arg 0 1 = .number (-1) := rfl
  obtain ⟨hadd, -, -, -, hdivide, -⟩ := perform_exact (within 0 extremes) hleft hright
  obtain ⟨hdivide, -⟩ := hdivide (by decide)
  refine ⟨hdivide.overflows.mpr ?_, hdivide.unchecked, hadd.unchecked⟩
  unfold Fits
  decide

end Evaluator

end KnightLang
