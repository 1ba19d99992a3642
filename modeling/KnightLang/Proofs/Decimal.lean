import KnightLang.Proofs.Expression.Locations
import KnightLang.Proofs.Expression.Written
import Mathlib.Algebra.Group.Nat.Defs

/-!
Numbers in decimal, as they are written, converted and parsed. A conversion reads digits modulo the
size of a word, a literal of a source has to fit one, and the text of a word is read back by both.
-/

namespace KnightLang

def Byte.isSign (byte : UInt8) : Bool := byte == 45 || byte == 43

theorem Byte.opens_number : ∀ byte, isDigit byte = true →
    isSpace byte = false ∧ isSign byte = false :=
  forall_of_code (by decide +kernel)

namespace Decimal

/-- The text of a number: digits without a zero in front of them, and a minus in front of the digits
of a negative number. -/
structure Canonical (number : Int) (digits text : Bytes) : Prop where
  text_eq : text = (if number < 0 then [45] else []) ++ digits
  ne_nil : digits ≠ []
  isDigit : ∀ byte ∈ digits, Byte.isDigit byte = true
  zero : digits.head? = some 48 → digits = [48]
  value : value digits = number.natAbs

/-- A sign in front of `rest`, or none where there is none to take. -/
inductive OptionalSign (rest : Bytes) : Bytes → Prop where
  | minus : OptionalSign rest [45]
  | plus : OptionalSign rest [43]
  | none : Stops Byte.isSign rest → OptionalSign rest []

/-- A text begins with white space, a sign and digits, each as long as it can be. -/
structure Divides (text spaces sign digits rest : Bytes) : Prop where
  text_eq : text = spaces ++ (sign ++ (digits ++ rest))
  isSpace : ∀ byte ∈ spaces, Byte.isSpace byte = true
  spaces_stop : Stops Byte.isSpace (sign ++ (digits ++ rest))
  sign : OptionalSign (digits ++ rest) sign
  isDigit : ∀ byte ∈ digits, Byte.isDigit byte = true
  digits_stop : Stops Byte.isDigit rest

/-! ### Reading -/

theorem foldl_wrapped (digits : Bytes) (total : Nat) :
    digits.foldl (fun total byte => total * 10 + Int64.ofNat (digit byte)) (Int64.ofNat total) =
      Int64.ofNat (digits.foldl (fun total byte => 10 * total + digit byte) total) := by
  induction digits generalizing total with
  | nil => rfl
  | cons byte rest ih => rw [List.foldl_cons, ofNat_mul_add, ih, List.foldl_cons]

theorem wrappedValue_eq (digits : Bytes) : wrappedValue digits = Int64.ofNat (value digits) :=
  foldl_wrapped digits 0

theorem sign_of_stops {bytes : Bytes} (hstops : Stops Byte.isSign bytes) :
    sign bytes = (false, bytes) := by
  cases bytes with
  | nil => rfl
  | cons byte rest =>
      simp only [stops_cons, Byte.isSign, Bool.or_eq_false_iff, beq_eq_false_iff_ne] at hstops
      unfold sign
      split
      · next heq => exact absurd (List.cons.inj heq).1 hstops.1
      · next heq => exact absurd (List.cons.inj heq).1 hstops.2
      · rfl

theorem exists_sign (bytes : Bytes) :
    ∃ sign rest, bytes = sign ++ rest ∧ OptionalSign rest sign := by
  cases bytes with
  | nil => exact ⟨[], [], rfl, .none (by simp [Stops])⟩
  | cons byte rest =>
      by_cases hminus : byte = 45
      · exact ⟨[45], rest, by rw [hminus]; rfl, .minus⟩
      by_cases hplus : byte = 43
      · exact ⟨[43], rest, by rw [hplus]; rfl, .plus⟩
      · refine ⟨[], byte :: rest, rfl, .none (stops_cons.mpr ?_)⟩
        simp [Byte.isSign, hminus, hplus]

theorem exists_divides (text : Bytes) :
    ∃ spaces sign digits rest, Divides text spaces sign digits rest := by
  obtain ⟨spaces, others, rfl, hspaces, hothers⟩ := exists_run Byte.isSpace text
  obtain ⟨sign, more, rfl, hsign⟩ := exists_sign others
  obtain ⟨digits, rest, rfl, hdigits, hrest⟩ := exists_run Byte.isDigit more
  exact ⟨spaces, sign, digits, rest, rfl, hspaces, hothers, hsign, hdigits, hrest⟩

/-- The number at the front of a text, by its parts. -/
theorem Divides.leadingNumber_eq {text spaces sign digits rest : Bytes}
    (hdivides : Divides text spaces sign digits rest) :
    leadingNumber text =
      if sign = [45] then -Int64.ofNat (value digits) else Int64.ofNat (value digits) := by
  have hspaces := (span_of_stops hdivides.isSpace hdivides.spaces_stop).2
  have hdigits := (span_of_stops hdivides.isDigit hdivides.digits_stop).1
  unfold leadingNumber
  rw [hdivides.text_eq, hspaces]
  cases hdivides.sign with
  | minus => simp [Decimal.sign, hdigits, wrappedValue_eq]
  | plus => simp [Decimal.sign, hdigits, wrappedValue_eq]
  | none hstops => simp [sign_of_stops hstops, hdigits, wrappedValue_eq]

theorem Divides.toInt_leadingNumber {text spaces sign digits rest : Bytes}
    (hdivides : Divides text spaces sign digits rest) :
    (leadingNumber text).toInt =
      ((if sign = [45] then -1 else 1) * (value digits : Int)).bmod (2 ^ 64) := by
  have hsize : Int64.size = 2 ^ 64 := rfl
  rw [hdivides.leadingNumber_eq, ← Int64.ofInt_eq_ofNat, ← Int64.ofInt_neg, ← hsize]
  by_cases hminus : sign = [45]
  · rw [if_pos hminus, if_pos hminus, Int64.toInt_ofInt, Int.neg_mul, Int.one_mul]
  · rw [if_neg hminus, if_neg hminus, Int64.toInt_ofInt, Int.one_mul]

theorem divides_of_ne_nil {sign digits : Bytes} (hne : digits ≠ [])
    (hdigits : ∀ byte ∈ digits, Byte.isDigit byte = true) (hsign : sign = [45] ∨ sign = []) :
    Divides (sign ++ digits) [] sign digits [] := by
  obtain ⟨first, others, rfl⟩ := List.exists_cons_of_ne_nil hne
  obtain ⟨hspace, hfirst⟩ := Byte.opens_number first (hdigits first List.mem_cons_self)
  have hends : Stops Byte.isDigit [] := by simp [Stops]
  rcases hsign with rfl | rfl
  · exact ⟨by simp, by simp, stops_cons.mpr rfl, .minus, hdigits, hends⟩
  · exact ⟨by simp, by simp, stops_cons.mpr hspace, .none (stops_cons.mpr hfirst), hdigits, hends⟩

/-! ### Writing -/

theorem head?_ofNat {number : Nat} (hhead : (Bytes.ofNat number).head? = some 48) : number = 0 := by
  induction number using Nat.strongRecOn with
  | _ number ih =>
      unfold Bytes.ofNat at hhead ih
      rcases Nat.lt_or_ge number 10 with hsmall | hlarge
      · rw [Nat.toDigits_of_lt_base hsmall] at hhead
        have hdigit : ∀ digit : Fin 10, (Nat.digitChar digit).toUInt8 = 48 → digit = 0 := by decide
        have hzero := hdigit ⟨number, hsmall⟩ (by simpa using hhead)
        exact congrArg Fin.val hzero
      · have hne : (Nat.toDigits 10 (number / 10)).map Char.toUInt8 ≠ [] := by
          simp [Nat.toDigits_ne_nil]
        rw [Nat.toDigits_of_base_le (by decide) hlarge, List.map_append,
          List.head?_append_of_ne_nil _ hne] at hhead
        have hquotient := ih (number / 10) (by omega) hhead
        omega

theorem canonical_ofInt (number : Int) :
    Canonical number (Bytes.ofNat number.natAbs) (Bytes.ofInt number) := by
  have hzero {number : Nat} (hhead : (Bytes.ofNat number).head? = some 48) :
      Bytes.ofNat number = [48] := by
    rw [head?_ofNat hhead]
    rfl
  refine ⟨?_, ?_, fun byte => isDigit_of_mem_ofNat, hzero, value_ofNat _⟩
  · cases number with
    | ofNat number => rfl
    | negSucc number =>
        rw [if_pos (Int.negSucc_lt_zero number)]
        rfl
  · simp [Bytes.ofNat, Nat.toDigits_ne_nil]

/-- The text of a word is read back, down to the least word, whose magnitude is no word. -/
theorem Canonical.leadingNumber_eq {word : Int64} {digits text : Bytes}
    (hcanonical : Canonical word.toInt digits text) : leadingNumber text = word := by
  have hdivides {sign : Bytes} (hsign : sign = [45] ∨ sign = []) :
      Divides (sign ++ digits) [] sign digits [] :=
    divides_of_ne_nil hcanonical.ne_nil hcanonical.isDigit hsign
  rw [← Int64.toInt_inj, hcanonical.text_eq]
  by_cases hnegative : word.toInt < 0
  · have hvalue : -1 * (word.toInt.natAbs : Int) = word.toInt := by omega
    rw [if_pos hnegative, (hdivides (Or.inl rfl)).toInt_leadingNumber, hcanonical.value,
      if_pos rfl, hvalue]
    exact Int64.toInt_bmod word
  · have hvalue : 1 * (word.toInt.natAbs : Int) = word.toInt := by omega
    rw [if_neg hnegative, (hdivides (Or.inr rfl)).toInt_leadingNumber, hcanonical.value,
      if_neg (by decide), hvalue]
    exact Int64.toInt_bmod word

/-- What a literal of a source stands for is what its digits convert to. -/
theorem leadingNumber_of_isDigit {digits : Bytes} (hne : digits ≠ [])
    (hdigits : ∀ byte ∈ digits, Byte.isDigit byte = true) :
    leadingNumber digits = Int64.ofNat (value digits) := by
  have hdivides := divides_of_ne_nil hne hdigits (Or.inr rfl)
  exact hdivides.leadingNumber_eq.trans (if_neg (by decide))

end Decimal

theorem Store.exists_numberText (word : Int64) (store : Store) :
    ∃ text after, numberText word store = .ok text after ∧
      after.bytes text = Bytes.ofInt64 word := by
  unfold numberText
  by_cases hzero : word = 0
  · subst hzero
    exact ⟨.static .zero, store, rfl, rfl⟩
  by_cases hone : word = 1
  · subst hone
    exact ⟨.static .one, store, rfl, rfl⟩
  · simp only [beq_iff_eq, hzero, hone, if_false]
    refine ⟨.owned store.texts.size, _, rfl, ?_⟩
    simp [bytes, text?]

/-! ### Literals -/

namespace Run

variable (machine : Machine) (label : Bytes) {blank digits rest : Bytes} (hblank : Blank blank)
  (hne : digits ≠ []) (hdigits : ∀ byte ∈ digits, Byte.isDigit byte = true)
  (hstops : Stops Byte.isDigit rest)

include hblank hne hdigits hstops

theorem parseFrom_literal (hvalue : Decimal.value digits < Decimal.signedBound) :
    parseFrom { unread := blank ++ (digits ++ rest) } label machine =
      .ok (.ok (.number (Int64.ofNat (Decimal.value digits))), { unread := rest }) machine := by
  have hparse : (machine.grammar label none).parse (blank ++ (digits ++ rest)) = .ok _ _ :=
    Scan.expression_atom rfl hblank _ rfl (.number hne hdigits hstops hvalue)
  obtain ⟨value, after, hload, -, hfrom⟩ := parseFrom_of_ok hparse
  cases hload
  exact hfrom

theorem parseFrom_literal_large (hvalue : Decimal.signedBound ≤ Decimal.value digits) :
    ∃ unread, parseFrom { unread := blank ++ (digits ++ rest) } label machine =
      .ok
        (.error
          { outer := .raised .literalOutOfRange
              { label
                line := (Position.behind blank).line
                column := (Position.behind blank).column } },
          { unread })
        machine := by
  have hread : ∃ unread position,
      (machine.grammar label none).parse (blank ++ (digits ++ rest)) = .error _ _ :=
    Scan.expression_wrong rfl hblank _ rfl (.number hne hdigits hstops hvalue)
  obtain ⟨unread, position, hparse⟩ := hread
  rw [Position.after_eq_behind] at hparse
  obtain ⟨after, hfetch, hfrom⟩ := parseFrom_of_error hparse
  cases hfetch
  exact ⟨unread, hfrom⟩

end Run

/-- The ways through decimal text agree. The text of a word is canonical and converts back to it.
Any text converts to its signed digits, reduced to a word. A literal of a source is what its digits
convert to if their value is below two to the power of 63, and else fails at its first digit. -/
theorem Decimal.readings_agree :
    (∀ (word : Int64) (store : Store), ∃ text after,
      Store.numberText word store = .ok text after ∧
      (∃ digits, Canonical word.toInt digits (after.bytes text)) ∧
      leadingNumber (after.bytes text) = word) ∧
    (∀ text, (∃ spaces sign digits rest, Divides text spaces sign digits rest) ∧
      ∀ spaces sign digits rest, Divides text spaces sign digits rest →
        (leadingNumber text).toInt =
          ((if sign = [45] then -1 else 1) * (value digits : Int)).bmod (2 ^ 64)) ∧
    ∀ (machine : Machine) (label blank digits rest : Bytes), Blank blank → digits ≠ [] →
      (∀ byte ∈ digits, Byte.isDigit byte = true) → Stops Byte.isDigit rest →
      (value digits < 2 ^ 63 →
        (leadingNumber digits).toInt = value digits ∧
        Run.parseFrom { unread := blank ++ (digits ++ rest) } label machine =
          .ok (.ok (.number (leadingNumber digits)), { unread := rest }) machine) ∧
      (2 ^ 63 ≤ value digits → ∃ error unread,
        Run.parseFrom { unread := blank ++ (digits ++ rest) } label machine =
          .ok (.error error, unread) machine ∧
        error.kind = .parse ∧ error.outer.description = "integer literal out of range" ∧
        error.outer = .raised .literalOutOfRange
          { label
            line := (Position.behind blank).line
            column := (Position.behind blank).column }) := by
  refine ⟨fun word store => ?_, fun text => ⟨exists_divides text, ?_⟩, ?_⟩
  · obtain ⟨text, after, htext, hbytes⟩ := Store.exists_numberText word store
    have hcanonical := canonical_ofInt word.toInt
    rw [← Bytes.ofInt64, ← hbytes] at hcanonical
    exact ⟨text, after, htext, ⟨_, hcanonical⟩, hcanonical.leadingNumber_eq⟩
  · intro spaces sign digits rest hdivides
    exact hdivides.toInt_leadingNumber
  · intro machine label blank digits rest hblank hne hdigits hstops
    have hconverted := leadingNumber_of_isDigit hne hdigits
    constructor
    · intro hvalue
      rw [hconverted]
      refine ⟨Int64.toInt_ofNat_of_lt hvalue, ?_⟩
      exact Run.parseFrom_literal machine label hblank hne hdigits hstops hvalue
    · intro hvalue
      obtain ⟨unread, hfrom⟩ :=
        Run.parseFrom_literal_large machine label hblank hne hdigits hstops hvalue
      exact ⟨_, _, hfrom, rfl, rfl, rfl⟩

/-- The least word, a text that wraps, and the literals on either side of the limit. -/
theorem Decimal.readings_agree_bounds :
    (∃ text after, Store.numberText Int64.minValue {} = .ok text after ∧
      leadingNumber (after.bytes text) = Int64.minValue) ∧
    (leadingNumber "\t-18446744073709551617x").toInt = -1 ∧
    Run.parseFrom { unread := "0009223372036854775807" } [] {} =
      .ok (.ok (.number Int64.maxValue), { unread := [] }) {} ∧
    ∃ error unread, Run.parseFrom { unread := "\n9223372036854775808" } [] {} =
        .ok (.error error, unread) {} ∧
      error.outer = .raised .literalOutOfRange { label := [], line := 2, column := 1 } := by
  obtain ⟨text, after, htext, -, hword⟩ := readings_agree.1 Int64.minValue {}
  have hdivides : Divides "\t-18446744073709551617x" [9] [45] "18446744073709551617" [120] :=
    ⟨rfl, by decide +kernel, stops_cons.mpr rfl, .minus, by decide +kernel, stops_cons.mpr rfl⟩
  have hstops : Stops Byte.isDigit [] := by simp [Stops]
  have hfits := (readings_agree.2.2 {} [] [] "0009223372036854775807" [] .nil (by decide)
    (by decide +kernel) hstops).1 (by decide)
  have hlarge := (readings_agree.2.2 {} [] [10] "9223372036854775808" [] (.separator rfl .nil)
    (by decide) (by decide +kernel) hstops).2 (by decide)
  refine ⟨⟨text, after, htext, hword⟩, ?_, ?_, ?_⟩
  · exact (readings_agree.2.1 _).2 _ _ _ _ hdivides
  · exact hfits.2
  · obtain ⟨error, unread, hfrom, -, -, houter⟩ := hlarge
    exact ⟨error, unread, hfrom, houter⟩

end KnightLang
