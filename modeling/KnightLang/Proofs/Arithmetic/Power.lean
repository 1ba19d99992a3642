import KnightLang.Proofs.Arithmetic
import Mathlib.Algebra.Ring.Parity
import Mathlib.Data.Int.ModEq
import Mathlib.Tactic.Linarith

/-!
Integer powers. Repeated squaring takes a product of two words at every step. Each of them divides
what is left to work out, so none is lost if the power itself is not: the products that belong to
the power have its sign, and a square that is no larger than 2^63 is smaller.
-/

namespace KnightLang.Arithmetic

/-- The exact power. A negative exponent gives the quotient of one by the power, toward zero. -/
def exactPower (base exponent : Int) : Int :=
  if 0 ≤ exponent then base ^ exponent.toNat
  else if base = 1 then 1
  else if base = -1 then (-1) ^ exponent.natAbs
  else 0

/-- The pairs of words that repeated squaring multiplies, in order. -/
def products (product base : Int64) (exponent : Nat) : List (Int64 × Int64) :=
  if exponent = 0 then []
  else
    (if exponent % 2 = 1 then [(product, base)] else []) ++
      if exponent / 2 = 0 then []
      else
        (base, base) ::
          products (if exponent % 2 = 1 then product * base else product) (base * base)
            (exponent / 2)
termination_by exponent
decreasing_by omega

/-! ### One product -/

theorem toInt_mul_of_fits {left right : Int64} (hfits : Fits (left.toInt * right.toInt)) :
    (left * right).toInt = left.toInt * right.toInt := by
  rw [Int64.toInt_mul, bmod_eq_self_iff.mpr hfits]

theorem toInt_mul_modEq (left right : Int64) :
    (left * right).toInt ≡ left.toInt * right.toInt [ZMOD 2 ^ 64] := by
  rw [Int64.toInt_mul, Int.modEq_iff_dvd]
  exact Int.dvd_self_sub_bmod

theorem multiply_of_fits {left right : Int64} (hfits : Fits (left.toInt * right.toInt)) :
    multiply true left right = .ok (left * right) := by
  obtain ⟨word, hword, hexact⟩ := (computes_multiply left right).checked hfits
  rw [hword, Int64.toInt_inj.mp (hexact.trans (toInt_mul_of_fits hfits).symm)]

theorem multiply_of_not_fits {left right : Int64} (hlost : ¬Fits (left.toInt * right.toInt)) :
    ∃ reason, multiply true left right = .error reason := by
  obtain ⟨reason, hreason, -⟩ := (computes_multiply left right).overflows.mpr hlost
  exact ⟨reason, hreason⟩

/-! ### What is left to work out -/

/-- One turn moves a factor from the power into the product and halves the exponent. -/
theorem turn_eq (product base : Int) (exponent : Nat) :
    (if exponent % 2 = 1 then product * base else product) * (base * base) ^ (exponent / 2) =
      product * base ^ exponent := by
  rw [← pow_two, ← pow_mul]
  split
  · next hodd =>
      rw [mul_assoc, ← pow_succ']
      congr 2
      omega
  · next heven =>
      congr 2
      omega

theorem fits_of_fits_mul {exact factor : Int} (hfactor : 0 < factor)
    (hfits : Fits (exact * factor)) : Fits exact := by
  unfold Fits at *
  constructor
  · nlinarith
  · nlinarith

theorem le_of_fits_mul {factor exact : Int} (hfactor : factor ≠ 0) (hexact : 0 < exact)
    (hfits : Fits (factor * exact)) : exact ≤ 2 ^ 63 := by
  unfold Fits at hfits
  rcases lt_or_gt_of_ne hfactor with hneg | hpos
  · nlinarith
  · nlinarith

/-- No square is 2^63. -/
theorem fits_square {base : Int} (hle : base * base ≤ 2 ^ 63) : Fits (base * base) := by
  refine ⟨by nlinarith, lt_of_le_of_ne hle fun heq => ?_⟩
  have hlow : 3037000499 < base.natAbs := by
    by_contra hle
    have hsmall : base.natAbs * base.natAbs ≤ 3037000499 * 3037000499 :=
      Nat.mul_le_mul (by omega) (by omega)
    have hsquare := Int.natAbs_mul_self' base
    omega
  have hlarge : 3037000500 * 3037000500 ≤ base.natAbs * base.natAbs := Nat.mul_le_mul hlow hlow
  have hsquare := Int.natAbs_mul_self' base
  omega

/-! ### The turns of the loop -/

section Turns

variable {checked : Bool} {product base next square : Int64} {exponent : Nat}

theorem powerLoop_last (hexponent : exponent ≠ 0) (hlast : exponent / 2 = 0)
    (hfactor : (if exponent % 2 = 1 then multiply checked product base else .ok product) =
      .ok next) : powerLoop checked product base exponent = .ok next := by
  rw [powerLoop, if_neg hexponent, hfactor]
  simp only [hlast, ↓reduceIte]

theorem powerLoop_next (hmore : exponent / 2 ≠ 0)
    (hfactor : (if exponent % 2 = 1 then multiply checked product base else .ok product) =
      .ok next) (hsquare : multiply checked base base = .ok square) :
    powerLoop checked product base exponent = powerLoop checked next square (exponent / 2) := by
  have hexponent : exponent ≠ 0 := by omega
  rw [powerLoop, if_neg hexponent, hfactor]
  simp only [hmore, ↓reduceIte, hsquare]

theorem mem_products_iff {pair : Int64 × Int64} :
    pair ∈ products product base exponent ↔
      exponent % 2 = 1 ∧ pair = (product, base) ∨
      exponent / 2 ≠ 0 ∧ (pair = (base, base) ∨
        pair ∈ products (if exponent % 2 = 1 then product * base else product) (base * base)
          (exponent / 2)) := by
  conv_lhs => rw [products]
  by_cases hzero : exponent = 0
  · simp [hzero]
  · rw [if_neg hzero, List.mem_append]
    refine or_congr ?_ ?_
    · split <;> simp_all
    · split <;> simp_all

/-- Repeated squaring gives the power modulo whatever its products are taken. -/
theorem powerLoop_modEq {modulus : Int}
    (hpairs : ∀ pair ∈ products product base exponent,
      multiply checked pair.1 pair.2 = .ok (pair.1 * pair.2) ∧
        (pair.1 * pair.2).toInt ≡ pair.1.toInt * pair.2.toInt [ZMOD modulus]) :
    ∃ word, powerLoop checked product base exponent = .ok word ∧
      word.toInt ≡ product.toInt * base.toInt ^ exponent [ZMOD modulus] := by
  induction exponent using Nat.strong_induction_on generalizing product base with
  | _ exponent ih =>
      by_cases hzero : exponent = 0
      · subst hzero
        refine ⟨product, by rw [powerLoop, if_pos rfl], ?_⟩
        rw [pow_zero, mul_one]
      have hproduct (hodd : exponent % 2 = 1) :=
        hpairs (product, base) (mem_products_iff.mpr (Or.inl ⟨hodd, rfl⟩))
      have hfactor : (if exponent % 2 = 1 then multiply checked product base else .ok product) =
          .ok (if exponent % 2 = 1 then product * base else product) := by
        split
        · next hodd => exact (hproduct hodd).1
        · rfl
      have hnext : (if exponent % 2 = 1 then product * base else product).toInt ≡
          if exponent % 2 = 1 then product.toInt * base.toInt else product.toInt
            [ZMOD modulus] := by
        split
        · next hodd => exact (hproduct hodd).2
        · rfl
      by_cases hlast : exponent / 2 = 0
      · refine ⟨_, powerLoop_last hzero hlast hfactor, ?_⟩
        have hone : exponent = 1 := by omega
        subst hone
        rw [pow_one]
        exact hnext
      · obtain ⟨hmultiply, hsquare⟩ :=
          hpairs (base, base) (mem_products_iff.mpr (Or.inr ⟨hlast, Or.inl rfl⟩))
        obtain ⟨word, hloop, hword⟩ := ih (exponent / 2) (by omega) fun pair hpair =>
          hpairs pair (mem_products_iff.mpr (Or.inr ⟨hlast, Or.inr hpair⟩))
        refine ⟨word, (powerLoop_next hlast hfactor hmultiply).trans hloop, ?_⟩
        rw [← turn_eq product.toInt base.toInt exponent]
        exact hword.trans (hnext.mul (hsquare.pow _))

theorem powerLoop_wraps (product base : Int64) (exponent : Nat) :
    ∃ word, powerLoop false product base exponent = .ok word ∧
      word.toInt ≡ product.toInt * base.toInt ^ exponent [ZMOD 2 ^ 64] :=
  powerLoop_modEq fun pair _ => ⟨rfl, toInt_mul_modEq pair.1 pair.2⟩

/-- Checked, repeated squaring gives the exact power if no product on its way is lost. -/
theorem powerLoop_of_fits
    (hfits : ∀ pair ∈ products product base exponent, Fits (pair.1.toInt * pair.2.toInt)) :
    ∃ word, powerLoop true product base exponent = .ok word ∧
      word.toInt = product.toInt * base.toInt ^ exponent := by
  simp only [← Int.modEq_zero_iff]
  refine powerLoop_modEq fun pair hpair => ⟨multiply_of_fits (hfits pair hpair), ?_⟩
  exact Int.modEq_zero_iff.mpr (toInt_mul_of_fits (hfits pair hpair))

/-- It overflows if a product on its way is lost. -/
theorem powerLoop_of_not_fits {pair : Int64 × Int64}
    (hpair : pair ∈ products product base exponent)
    (hlost : ¬Fits (pair.1.toInt * pair.2.toInt)) :
    ∃ reason, powerLoop true product base exponent = .error reason := by
  induction exponent using Nat.strong_induction_on generalizing product base with
  | _ exponent ih =>
      have hzero : exponent ≠ 0 := by
        rintro rfl
        simp [products] at hpair
      rw [powerLoop, if_neg hzero]
      by_cases hproduct : exponent % 2 = 1 ∧ ¬Fits (product.toInt * base.toInt)
      · obtain ⟨hodd, hproduct⟩ := hproduct
        obtain ⟨reason, hreason⟩ := multiply_of_not_fits hproduct
        exact ⟨reason, by simp only [hodd, ↓reduceIte, hreason]⟩
      have hfactor : (if exponent % 2 = 1 then multiply true product base else .ok product) =
          .ok (if exponent % 2 = 1 then product * base else product) := by
        split
        · next hodd => exact multiply_of_fits (by tauto)
        · rfl
      rcases mem_products_iff.mp hpair with ⟨hodd, rfl⟩ | ⟨hmore, hpair⟩
      · exact absurd ⟨hodd, hlost⟩ hproduct
      by_cases hsquare : Fits (base.toInt * base.toInt)
      · rcases hpair with rfl | hpair
        · exact absurd hsquare hlost
        obtain ⟨reason, hreason⟩ := ih (exponent / 2) (by omega) hpair
        exact ⟨reason, by simp only [hfactor, hmore, ↓reduceIte, multiply_of_fits hsquare, hreason]⟩
      · obtain ⟨reason, hreason⟩ := multiply_of_not_fits hsquare
        exact ⟨reason, by simp only [hfactor, hmore, ↓reduceIte, hreason]⟩

end Turns

/-- No product on the way to a power that fits is lost. -/
theorem fits_of_mem_products {product base : Int64} {exponent : Nat}
    (hfactor : product.toInt ≠ 0 ∨ base.toInt = 0)
    (hfits : Fits (product.toInt * base.toInt ^ exponent)) {pair : Int64 × Int64}
    (hpair : pair ∈ products product base exponent) : Fits (pair.1.toInt * pair.2.toInt) := by
  induction exponent using Nat.strong_induction_on generalizing product base with
  | _ exponent ih =>
      rw [← turn_eq] at hfits
      have hnonzero : (if exponent % 2 = 1 then product.toInt * base.toInt else product.toInt) ≠ 0 ∨
          base.toInt = 0 := by
        by_cases hbase : base.toInt = 0
        · exact Or.inr hbase
        · have hproduct := hfactor.resolve_right hbase
          left
          split
          · exact mul_ne_zero hproduct hbase
          · exact hproduct
      have hproduct (hodd : exponent % 2 = 1) : Fits (product.toInt * base.toInt) := by
        by_cases hbase : base.toInt = 0
        · simp [hbase, Fits]
        · rw [if_pos hodd] at hfits
          exact fits_of_fits_mul (pow_pos (mul_self_pos.mpr hbase) _) hfits
      have hsquare (hmore : exponent / 2 ≠ 0) : Fits (base.toInt * base.toInt) := by
        by_cases hbase : base.toInt = 0
        · simp [hbase, Fits]
        · have hpositive : 0 < base.toInt * base.toInt := mul_self_pos.mpr hbase
          have hpower : base.toInt * base.toInt ≤ (base.toInt * base.toInt) ^ (exponent / 2) :=
            le_self_pow₀ hpositive hmore
          have hbound := le_of_fits_mul (hnonzero.resolve_right hbase) (pow_pos hpositive _) hfits
          exact fits_square (hpower.trans hbound)
      rcases mem_products_iff.mp hpair with ⟨hodd, rfl⟩ | ⟨hmore, rfl | hpair⟩
      · exact hproduct hodd
      · exact hsquare hmore
      · have hnext : (if exponent % 2 = 1 then product * base else product).toInt =
            if exponent % 2 = 1 then product.toInt * base.toInt else product.toInt := by
          split
          · next hodd => exact toInt_mul_of_fits (hproduct hodd)
          · rfl
        refine ih (exponent / 2) (by omega) ?_ ?_ hpair
        · rw [hnext, toInt_mul_of_fits (hsquare hmore)]
          exact hnonzero.imp_right fun hbase => by rw [hbase, mul_zero]
        · rwa [hnext, toInt_mul_of_fits (hsquare hmore)]

/-! ### Powers -/

theorem computes_const {word : Int64} {exact : Int} (hword : word.toInt = exact) :
    Computes (fun _ => .ok word) exact where
  overflows := by
    have hfits : Fits exact := hword ▸ fits_toInt word
    simp [hfits]
  checked _ := ⟨word, rfl, hword⟩
  unchecked := ⟨word, rfl, by rw [← hword, bmod_eq_self_iff.mpr (fits_toInt word)]⟩

theorem and_one_iff (word : Int64) : (word &&& 1 != 0) = true ↔ Odd word.toInt := by
  have hbit : (word &&& 1).toBitVec.toNat = word.toBitVec.toNat % 2 := by
    rw [Int64.toBitVec_and, BitVec.toNat_and]
    exact Nat.and_one_is_mod _
  have hword : word.toInt = word.toBitVec.toInt := rfl
  have hzero : word &&& 1 = 0 ↔ (word &&& 1).toBitVec.toNat = 0 := by
    rw [← Int64.toBitVec_inj, ← BitVec.toNat_inj]
    rfl
  rw [bne_iff_ne, Ne, hzero, hbit, Int.odd_iff, hword, BitVec.toInt_eq_toNat_cond]
  split <;> omega

theorem exactPower_of_nonneg (base : Int) {exponent : Int} (hexponent : 0 ≤ exponent) :
    exactPower base exponent = base ^ exponent.toNat := if_pos hexponent

theorem exactPower_one (exponent : Int) : exactPower 1 exponent = 1 := by
  simp [exactPower]

theorem exactPower_neg_one (exponent : Int) :
    exactPower (-1) exponent = if Odd exponent then -1 else 1 := by
  have hpower : exactPower (-1) exponent = (-1) ^ exponent.natAbs := by
    unfold exactPower
    split
    · congr 1
      omega
    · simp
  rw [hpower]
  split
  · next hodd => exact (Int.natAbs_odd.mpr hodd).neg_one_pow
  · next heven => exact (Nat.not_odd_iff_even.mp (mt Int.natAbs_odd.mp heven)).neg_one_pow

theorem one_toInt_mul (exact : Int) : (1 : Int64).toInt * exact = exact := one_mul exact

theorem powerLoop_of_fits_power {base : Int64} {exponent : Nat}
    (hfits : Fits (base.toInt ^ exponent)) :
    ∃ word, powerLoop true 1 base exponent = .ok word ∧ word.toInt = base.toInt ^ exponent := by
  rw [← one_toInt_mul (base.toInt ^ exponent)] at hfits ⊢
  exact powerLoop_of_fits fun pair => fits_of_mem_products (Or.inl (by decide)) hfits

theorem powerLoop_of_not_fits_power {base : Int64} {exponent : Nat}
    (hlost : ¬Fits (base.toInt ^ exponent)) :
    ∃ reason, powerLoop true 1 base exponent = .error reason := by
  by_contra hnone
  have hpairs : ∀ pair ∈ products 1 base exponent, Fits (pair.1.toInt * pair.2.toInt) := by
    intro pair hpair
    by_contra hpairLost
    exact hnone (powerLoop_of_not_fits hpair hpairLost)
  obtain ⟨word, -, hword⟩ := powerLoop_of_fits hpairs
  rw [one_toInt_mul] at hword
  exact hlost (hword ▸ fits_toInt word)

theorem eq_bmod_of_modEq {word : Int64} {exact : Int} (hword : word.toInt ≡ exact [ZMOD 2 ^ 64]) :
    word.toInt = exact.bmod (2 ^ 64) := by
  have hsame : word.toInt % ((2 ^ 64 : Nat) : Int) = exact % ((2 ^ 64 : Nat) : Int) := hword
  rw [← Int.emod_bmod exact, ← hsame, Int.emod_bmod, bmod_eq_self_iff.mpr (fits_toInt word)]

/-- Repeated squaring, whose own reason to fail is not told. -/
theorem computes_powerLoop (base : Int64) (exponent : Nat) {reason : Reason}
    (hkind : reason.kind = .overflow) :
    Computes
      (fun checked =>
        match powerLoop checked 1 base exponent with
        | .error _ => .error reason
        | .ok product => .ok product)
      (base.toInt ^ exponent) where
  overflows := by
    constructor
    · rintro ⟨other, hother, -⟩ hfits
      obtain ⟨word, hword, -⟩ := powerLoop_of_fits_power hfits
      simp only [hword] at hother
      cases hother
    · intro hlost
      obtain ⟨inner, hinner⟩ := powerLoop_of_not_fits_power hlost
      exact ⟨reason, by simp only [hinner], hkind⟩
  checked hfits := by
    obtain ⟨word, hword, hexact⟩ := powerLoop_of_fits_power hfits
    exact ⟨word, by simp only [hword], hexact⟩
  unchecked := by
    obtain ⟨word, hword, hwraps⟩ := powerLoop_wraps 1 base exponent
    rw [one_toInt_mul] at hwraps
    exact ⟨word, by simp only [hword], eq_bmod_of_modEq hwraps⟩

theorem computes_power (base exponent : Int64) :
    Computes (fun checked => power checked base exponent)
      (exactPower base.toInt exponent.toInt) := by
  by_cases hone : base = 1
  · subst hone
    exact computes_const (exactPower_one _).symm
  by_cases hminus : base = -1
  · subst hminus
    refine computes_const ?_
    have hminus : (-1 : Int64).toInt = -1 := rfl
    rw [hminus, exactPower_neg_one]
    by_cases hodd : Odd exponent.toInt
    · rw [if_pos hodd, if_pos ((and_one_iff exponent).mpr hodd)]
      rfl
    · rw [if_neg hodd, if_neg (mt (and_one_iff exponent).mp hodd)]
      rfl
  simp only [power, beq_eq_false_iff_ne.mpr hone, beq_eq_false_iff_ne.mpr hminus,
    Bool.false_eq_true, ↓reduceIte]
  by_cases hzero : exponent = 0
  · subst hzero
    exact computes_const (pow_zero base.toInt).symm
  simp only [beq_eq_false_iff_ne.mpr hzero, Bool.false_eq_true, ↓reduceIte]
  have hsign : exponent < 0 ↔ exponent.toInt < 0 := Int64.lt_iff_toInt_lt
  by_cases hnegative : exponent < 0
  · simp only [hnegative, ↓reduceIte]
    refine computes_const ?_
    have hexponent : ¬0 ≤ exponent.toInt := not_le.mpr (hsign.mp hnegative)
    have hbase : base.toInt ≠ 1 := fun heq => hone (Int64.toInt_inj.mp heq)
    have hbase' : base.toInt ≠ -1 := fun heq => hminus (Int64.toInt_inj.mp heq)
    simp [exactPower, hexponent, hbase, hbase']
  · have hexponent : 0 ≤ exponent.toInt := not_lt.mp (mt hsign.mpr hnegative)
    simp only [hnegative, ↓reduceIte]
    rw [exactPower_of_nonneg _ hexponent, Int64.toNat_toInt]
    exact computes_powerLoop base _ rfl

/-- A power of words is the exact power of integers: checked, it overflows if that does not fit, and
otherwise is that; unchecked, it is that modulo 2^64. No product on the way to a power that fits is
lost. -/
theorem power_exact (base exponent : Int64) :
    Computes (fun checked => power checked base exponent)
      (exactPower base.toInt exponent.toInt) ∧
    (Fits (exactPower base.toInt exponent.toInt) →
      ∀ pair ∈ products 1 base exponent.toNatClampNeg, Fits (pair.1.toInt * pair.2.toInt)) := by
  refine ⟨computes_power base exponent, fun hfits pair hpair => ?_⟩
  by_cases hexponent : 0 ≤ exponent.toInt
  · rw [exactPower_of_nonneg _ hexponent, Int64.toNat_toInt,
      ← one_toInt_mul (base.toInt ^ exponent.toNatClampNeg)] at hfits
    exact fits_of_mem_products (Or.inl (by decide)) hfits hpair
  · have hzero : exponent.toNatClampNeg = 0 := by
      rw [← Int64.toNat_toInt]
      omega
    simp [hzero, products] at hpair

example : power true (-2) 63 = .ok least := by decide +kernel

example : (power true 2 63).isOk = false := by decide +kernel

end KnightLang.Arithmetic
