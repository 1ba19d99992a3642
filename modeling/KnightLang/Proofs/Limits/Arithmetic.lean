import KnightLang.Arithmetic
import Mathlib.Tactic.SplitIfs

/-!
Checked and unchecked arithmetic. They differ in overflow only: whatever a checked operation gives
without one is the wrapped result.
-/

namespace KnightLang.Arithmetic

/-- What an operation gives when arithmetic is checked, it gives as well when it is not, except for
an overflow. -/
structure Loosens (operation : Bool → Except Reason Int64) : Prop where
  ok : ∀ {word : Int64}, operation true = .ok word → operation false = .ok word
  error : ∀ {reason : Reason}, operation true = .error reason →
    reason.kind = .overflow ∨ operation false = .error reason

theorem loosens_const (result : Except Reason Int64) : Loosens fun _ => result := ⟨id, Or.inr⟩

theorem loosens_of_guarded {condition : Bool} {reason : Reason} {word : Int64}
    (hkind : reason.kind = .overflow) :
    Loosens fun checked => if checked && condition then .error reason else .ok word := by
  cases condition with
  | false =>
      simp only [Bool.and_false, Bool.false_eq_true, ↓reduceIte]
      exact loosens_const _
  | true =>
      constructor
      · intro result hresult
        cases hresult
      · intro other hother
        cases hother
        exact Or.inl hkind

theorem loosens_add (left right : Int64) : Loosens fun checked => add checked left right :=
  loosens_of_guarded rfl

theorem loosens_subtract (left right : Int64) :
    Loosens fun checked => subtract checked left right := loosens_of_guarded rfl

theorem loosens_multiply (left right : Int64) :
    Loosens fun checked => multiply checked left right := by
  simp only [multiply, Bool.and_assoc]
  exact loosens_of_guarded rfl

theorem loosens_divide (left right : Int64) : Loosens fun checked => divide checked left right := by
  simp only [divide, Bool.and_assoc]
  by_cases hzero : (right == 0) = true
  · simp only [hzero, ↓reduceIte]
    exact loosens_const _
  · simp only [hzero, Bool.false_eq_true, ↓reduceIte]
    exact loosens_of_guarded rfl

theorem loosens_negate (operand : Int64) : Loosens fun checked => negate checked operand :=
  loosens_of_guarded rfl

theorem factor_unchecked {product base next : Int64} {exponent : Nat}
    (hchecked : (if exponent % 2 = 1 then multiply true product base else .ok product) =
      .ok next) :
    (if exponent % 2 = 1 then multiply false product base else .ok product) = .ok next := by
  split_ifs at hchecked ⊢
  · exact (loosens_multiply product base).ok hchecked
  · exact hchecked

/-- Repeated squaring gives the wrapped power if no product on its way overflows. -/
theorem powerLoop_unchecked {product base result : Int64} {exponent : Nat}
    (hchecked : powerLoop true product base exponent = .ok result) :
    powerLoop false product base exponent = .ok result := by
  fun_induction powerLoop true product base exponent with
  | case1 product base =>
      rw [powerLoop]
      exact hchecked
  | case2 product base exponent hexponent reason hproduct => cases hchecked
  | case3 product base exponent hexponent next hproduct hlast =>
      rw [powerLoop, if_neg hexponent, factor_unchecked (by simpa using hproduct)]
      simpa only [hlast, ↓reduceIte] using hchecked
  | case4 product base exponent hexponent next hproduct hlast reason hsquare => cases hchecked
  | case5 product base exponent hexponent next hproduct hlast square hsquare ih =>
      rw [powerLoop, if_neg hexponent, factor_unchecked (by simpa using hproduct)]
      simp only [hlast, ↓reduceIte, (loosens_multiply base base).ok hsquare]
      exact ih hchecked

theorem loosens_power (base exponent : Int64) :
    Loosens fun checked => power checked base exponent := by
  unfold power
  split_ifs
  any_goals exact loosens_const _
  cases hloop : powerLoop true 1 base exponent.toNatClampNeg with
  | error reason =>
      constructor
      · intro word hword
        simp only [hloop] at hword
        cases hword
      · intro other hother
        simp only [hloop] at hother
        cases hother
        exact Or.inl rfl
  | ok product =>
      constructor
      · intro word hword
        simpa only [hloop, powerLoop_unchecked hloop] using hword
      · intro other hother
        simp only [hloop] at hother
        cases hother

end KnightLang.Arithmetic
