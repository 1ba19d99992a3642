import KnightLang.Proofs.Expression
import Mathlib.Data.List.TakeWhile

/-!
How the front of some bytes decides what a parse does. There are few shapes that bytes can have, and
for each of them it is said what reading an expression from it gives.
-/

namespace KnightLang

@[simp]
theorem Position.after_append (position : Position) (first second : Bytes) :
    position.after (first ++ second) = (position.after first).after second :=
  List.foldl_append

theorem stops_cons {test : UInt8 → Bool} {byte : UInt8} {rest : Bytes} :
    Stops test (byte :: rest) ↔ test byte = false := by
  simp [Stops]

theorem Stops.append {test : UInt8 → Bool} {rest : Bytes} (hstops : Stops test rest) {byte : UInt8}
    (hbyte : test byte = false) (more : Bytes) : Stops test (rest ++ byte :: more) := by
  cases rest with
  | nil => simpa [Stops] using hbyte
  | cons first others => exact hstops

theorem exists_run (test : UInt8 → Bool) (bytes : Bytes) :
    ∃ run rest, bytes = run ++ rest ∧ (∀ byte ∈ run, test byte = true) ∧ Stops test rest := by
  refine ⟨bytes.takeWhile test, bytes.dropWhile test, List.takeWhile_append_dropWhile.symm, ?_, ?_⟩
  · intro byte hmem
    exact List.mem_takeWhile_imp hmem
  · intro byte hmem
    have hhead := List.head?_dropWhile_not test bytes
    rw [Option.mem_def.mp hmem] at hhead
    exact hhead

theorem span_of_stops {test : UInt8 → Bool} {run rest : Bytes}
    (hrun : ∀ byte ∈ run, test byte = true) (hstops : Stops test rest) :
    (run ++ rest).takeWhile test = run ∧ (run ++ rest).dropWhile test = rest := by
  rw [List.takeWhile_append_of_pos hrun, List.dropWhile_append_of_pos hrun]
  cases rest with
  | nil => simp
  | cons byte others =>
      have hbyte := stops_cons.mp hstops
      simp [hbyte]

/-! ### Blanks -/

theorem Blank.append {first second : Bytes} (hfirst : Blank first) (hsecond : Blank second) :
    Blank (first ++ second) := by
  induction hfirst with
  | nil => exact hsecond
  | separator hbyte _ ih => exact .separator hbyte ih
  | comment htext _ ih =>
      rw [List.cons_append, List.append_assoc, List.cons_append]
      exact .comment htext ih

/-- A newline ends the comment that may be open. -/
theorem Void.blank_append_newline {bytes : Bytes} (hvoid : Void bytes) :
    Blank (bytes ++ [Byte.newline]) := by
  cases hvoid with
  | blank hblank => exact hblank.append (.separator rfl .nil)
  | comment hblank htext =>
      rw [List.append_assoc]
      exact hblank.append (.comment htext .nil)

theorem Blank.append_void {blank bytes : Bytes} (hblank : Blank blank) (hvoid : Void bytes) :
    Void (blank ++ bytes) := by
  cases hvoid with
  | blank hbytes => exact .blank (hblank.append hbytes)
  | comment hbytes htext =>
      rw [← List.append_assoc]
      exact .comment (hblank.append hbytes) htext

/-- A byte that begins a token. -/
structure Byte.Opens (byte : UInt8) : Prop where
  separator : Byte.isSeparator byte = false
  comment : byte ≠ 35

/-- Bytes hold no token, or a first one after what is blank. -/
theorem void_or_opens (bytes : Bytes) :
    Void bytes ∨
      ∃ blank byte rest, bytes = blank ++ byte :: rest ∧ Blank blank ∧ Byte.Opens byte := by
  induction hlength : bytes.length using Nat.strongRecOn generalizing bytes with
  | _ length ih =>
      subst hlength
      -- What is blank at the front is put before what the bytes after it are.
      have hafter {blank : Bytes} (rest : Bytes) (hbytes : bytes = blank ++ rest)
          (hblank : Blank blank) (hne : blank ≠ []) : Void bytes ∨
            ∃ blank byte rest, bytes = blank ++ byte :: rest ∧ Blank blank ∧ Byte.Opens byte := by
        have hshorter : rest.length < bytes.length := by
          have hpositive := List.length_pos_iff.mpr hne
          rw [hbytes, List.length_append]
          omega
        rcases ih rest.length hshorter rest rfl with
          hvoid | ⟨front, byte, others, rfl, hfront, hopens⟩
        · rw [hbytes]
          exact Or.inl (hblank.append_void hvoid)
        · rw [hbytes, ← List.append_assoc]
          exact Or.inr ⟨blank ++ front, byte, others, rfl, hblank.append hfront, hopens⟩
      cases bytes with
      | nil => exact Or.inl (.blank .nil)
      | cons byte rest =>
          by_cases hseparator : Byte.isSeparator byte = true
          · have hfirst : Blank [byte] := .separator hseparator .nil
            exact hafter rest List.singleton_append.symm hfirst (List.cons_ne_nil _ _)
          by_cases hcomment : byte = 35
          · subst hcomment
            by_cases hnewline : Byte.newline ∈ rest
            · obtain ⟨text, others, rfl, htext⟩ := List.eq_append_cons_of_mem hnewline
              have hfirst : Blank (35 :: (text ++ [Byte.newline])) := .comment htext .nil
              refine hafter others ?_ hfirst (List.cons_ne_nil _ _)
              simp
            · exact Or.inl (.comment .nil hnewline)
          · refine Or.inr ⟨[], byte, rest, rfl, .nil, ?_, hcomment⟩
            simpa using hseparator

/-! ### Words -/

namespace Decimal

theorem digit_le {byte : UInt8} (hdigit : Byte.isDigit byte = true) : digit byte ≤ 9 := by
  rw [Byte.isDigit, Bool.and_eq_true, decide_eq_true_eq, decide_eq_true_eq, UInt8.le_iff_toNat_le,
    UInt8.le_iff_toNat_le] at hdigit
  exact Nat.sub_le_of_le_add hdigit.2

/-- A word has room for one more digit exactly where the exact value is in range: the quotient by
which this is found out is rounded, but never across a value that fits. -/
theorem hasRoom_iff {total digit : Nat} (htotal : total < signedBound) (hdigit : digit ≤ 9) :
    Int64.ofNat total ≤ (Int64.maxValue - Int64.ofNat digit) / 10 ↔
      10 * total + digit < signedBound := by
  have hsmall : digit < 2 ^ 63 := by omega
  have hroom : (Int64.maxValue - Int64.ofNat digit).toInt = 2 ^ 63 - 1 - digit := by
    rw [Int64.toInt_sub, Int64.toInt_ofNat_of_lt hsmall, Int64.toInt_maxValue,
      Int.bmod_eq_of_le (by omega) (by omega)]
  have hquotient :
      ((Int64.maxValue - Int64.ofNat digit) / 10).toInt = (2 ^ 63 - 1 - digit) / 10 := by
    rw [Int64.toInt_div_of_ne_right _ _ (by decide), hroom]
    exact Int.tdiv_eq_ediv_of_nonneg (by omega)
  rw [Int64.le_iff_toInt_le, Int64.toInt_ofNat_of_lt htotal, hquotient]
  unfold signedBound
  omega

theorem ofNat_mul_add (total digit : Nat) :
    Int64.ofNat total * 10 + Int64.ofNat digit = Int64.ofNat (10 * total + digit) := by
  rw [Int64.ofNat_add, Nat.mul_comm, Int64.ofNat_mul]
  rfl

end Decimal

namespace Scan

theorem skipBlank_comment {text : Bytes} (htext : Byte.newline ∉ text) (position : Position) :
    skipBlank true position text = (position.after text, []) := by
  induction text generalizing position with
  | nil => rfl
  | cons byte rest ih =>
      rw [List.mem_cons, not_or] at htext
      have hbyte : (byte != Byte.newline) = true := by simpa using Ne.symm htext.1
      simp only [skipBlank, hbyte, ↓reduceIte]
      exact ih htext.2 (position.next byte)

theorem skipBlank_comment_append {text : Bytes} (htext : Byte.newline ∉ text) (position : Position)
    (rest : Bytes) :
    skipBlank true position (text ++ Byte.newline :: rest) =
      skipBlank false (position.after (text ++ [Byte.newline])) rest := by
  induction text generalizing position with
  | nil => rfl
  | cons byte others ih =>
      rw [List.mem_cons, not_or] at htext
      have hbyte : (byte != Byte.newline) = true := by simpa using Ne.symm htext.1
      simp only [List.cons_append, skipBlank, hbyte, ↓reduceIte]
      exact ih htext.2 (position.next byte)

theorem skipBlank_append {blank : Bytes} (hblank : Blank blank) (position : Position)
    (rest : Bytes) :
    skipBlank false position (blank ++ rest) = skipBlank false (position.after blank) rest := by
  induction hblank generalizing position with
  | nil => rfl
  | @separator byte blank hbyte _ ih =>
      simp only [List.cons_append, skipBlank, hbyte, Bool.false_eq_true, ↓reduceIte]
      exact ih (position.next byte)
  | @comment text blank htext _ ih =>
      have hhash : Byte.isSeparator 35 = false := by decide
      simp only [List.cons_append, List.append_assoc, skipBlank, hhash, Bool.false_eq_true,
        ↓reduceIte, BEq.rfl]
      rw [skipBlank_comment_append htext, ih, ← Position.after_append]
      simp [Position.after]

theorem skipBlank_void {bytes : Bytes} (hvoid : Void bytes) (position : Position) :
    skipBlank false position bytes = (position.after bytes, []) := by
  cases hvoid with
  | blank hblank =>
      have hskip := skipBlank_append hblank position []
      rwa [List.append_nil] at hskip
  | @comment blank text hblank htext =>
      have hhash : Byte.isSeparator 35 = false := by decide
      rw [skipBlank_append hblank, Position.after_append]
      simp only [skipBlank, hhash, Bool.false_eq_true, ↓reduceIte, BEq.rfl]
      exact skipBlank_comment htext _

theorem skipBlank_opens {byte : UInt8} (hopens : Byte.Opens byte) (position : Position)
    (rest : Bytes) : skipBlank false position (byte :: rest) = (position, byte :: rest) := by
  have hcomment : (byte == 35) = false := by simpa using hopens.comment
  simp only [skipBlank, hopens.separator, hcomment, Bool.false_eq_true, ↓reduceIte]

theorem bind_ok {α β : Type} {first : Scan α} {next : α → Scan β} {scanner after : Scanner}
    {value : α} (hfirst : first scanner = .ok value after) :
    (first >>= next) scanner = next value after := by
  simp only [bind, EStateM.bind, hfirst]

theorem bind_eq_ok {α β : Type} {first : Scan α} {next : α → Scan β} {scanner after : Scanner}
    {value : β} (hbind : (first >>= next) scanner = .ok value after) :
    ∃ result middle, first scanner = .ok result middle ∧ next result middle = .ok value after := by
  simp only [bind, EStateM.bind] at hbind
  split at hbind
  · next result middle hfirst => exact ⟨result, middle, hfirst, hbind⟩
  · cases hbind

theorem bind_eq_error {α β : Type} {first : Scan α} {next : α → Scan β} {scanner after : Scanner}
    {error : Error} (hbind : (first >>= next) scanner = .error error after) :
    first scanner = .error error after ∨
      ∃ result middle, first scanner = .ok result middle ∧
        next result middle = .error error after := by
  simp only [bind, EStateM.bind] at hbind
  split at hbind
  · next result middle hfirst => exact Or.inr ⟨result, middle, hfirst, hbind⟩
  · next hfirst =>
      cases hbind
      exact Or.inl hfirst

theorem bind_error {α β : Type} {first : Scan α} {next : α → Scan β} {scanner after : Scanner}
    {error : Error} (hfirst : first scanner = .error error after) :
    (first >>= next) scanner = .error error after := by
  simp only [bind, EStateM.bind, hfirst]

theorem peekToken_void {grammar : Grammar} (hfailure : grammar.failure = none) {scanner : Scanner}
    (hvoid : Void scanner.unread) :
    peekToken grammar scanner =
      .error .endOfInput
        { scanner with unread := [], position := scanner.position.after scanner.unread } := by
  simp only [peekToken, skipBlank_void hvoid, atEnd, hfailure]

theorem peekToken_opens (grammar : Grammar) {scanner : Scanner} {blank rest : Bytes} {byte : UInt8}
    (hunread : scanner.unread = blank ++ byte :: rest) (hblank : Blank blank)
    (hopens : Byte.Opens byte) :
    peekToken grammar scanner =
      .ok byte
        { scanner with unread := byte :: rest, position := scanner.position.after blank } := by
  simp only [peekToken, hunread, skipBlank_append hblank, skipBlank_opens hopens]

/-! ### Tokens -/

theorem takeRun_eq {test : UInt8 → Bool} {scanner : Scanner} {run rest : Bytes}
    (hunread : scanner.unread = run ++ rest) (hrun : ∀ byte ∈ run, test byte = true)
    (hstops : Stops test rest) :
    takeRun test scanner =
      .ok run { scanner with unread := rest, position := scanner.position.after run } := by
  obtain ⟨htake, hdrop⟩ := span_of_stops hrun hstops
  simp only [takeRun, hunread, htake, hdrop]

theorem checkEnd_eq {grammar : Grammar} (hfailure : grammar.failure = none) (scanner : Scanner) :
    checkEnd grammar scanner = .ok ⟨⟩ scanner := by
  simp [checkEnd, hfailure]

theorem le_foldl_digits (total : Nat) (digits : Bytes) :
    total ≤ digits.foldl (fun total byte => 10 * total + Decimal.digit byte) total := by
  induction digits generalizing total with
  | nil => exact le_rfl
  | cons byte rest ih =>
      have hfirst := ih (10 * total + Decimal.digit byte)
      rw [List.foldl_cons]
      omega

theorem literalDigits_eq {digits rest : Bytes} (hdigits : ∀ byte ∈ digits, Byte.isDigit byte = true)
    (hstops : Stops Byte.isDigit rest) (total : Nat) (position : Position)
    (hvalue : digits.foldl (fun total byte => 10 * total + Decimal.digit byte) total <
      Decimal.signedBound) :
    literalDigits (Int64.ofNat total) position (digits ++ rest) =
      (Int64.ofNat (digits.foldl (fun total byte => 10 * total + Decimal.digit byte) total),
        position.after digits, rest) := by
  induction digits generalizing total position with
  | nil =>
      cases rest with
      | nil => rfl
      | cons byte others =>
          have hbyte : Byte.isDigit byte = false := hstops byte (by simp)
          simp [literalDigits, hbyte, Position.after]
  | cons byte others ih =>
      have hsmall : 10 * total + Decimal.digit byte < Decimal.signedBound :=
        (le_foldl_digits _ others).trans_lt hvalue
      have hbyte : Byte.isDigit byte = true := hdigits byte List.mem_cons_self
      have hroom := (Decimal.hasRoom_iff (by omega) (Decimal.digit_le hbyte)).mpr hsmall
      simp only [List.cons_append, literalDigits, hbyte, hroom, decide_true, Bool.and_self,
        ↓reduceIte, Decimal.ofNat_mul_add]
      exact ih (fun other hmem => hdigits other (List.mem_cons_of_mem _ hmem)) _ _ hvalue

/-- Digits whose value fits a word are read to their end. -/
theorem literalDigits_value {digits rest : Bytes}
    (hdigits : ∀ byte ∈ digits, Byte.isDigit byte = true) (hstops : Stops Byte.isDigit rest)
    (position : Position) (hvalue : Decimal.value digits < Decimal.signedBound) :
    literalDigits 0 position (digits ++ rest) =
      (Int64.ofNat (Decimal.value digits), position.after digits, rest) :=
  literalDigits_eq hdigits hstops 0 position hvalue

/-- Digits of too large a value are read up to one that takes it past the limit. -/
theorem literalDigits_large {digits : Bytes} (hdigits : ∀ byte ∈ digits, Byte.isDigit byte = true)
    (rest : Bytes) (total : Nat) (position : Position) (htotal : total < Decimal.signedBound)
    (hvalue : Decimal.signedBound ≤
      digits.foldl (fun total byte => 10 * total + Decimal.digit byte) total) :
    ∃ read position' byte others, Byte.isDigit byte = true ∧
      literalDigits (Int64.ofNat total) position (digits ++ rest) =
        (read, position', byte :: others) := by
  induction digits generalizing total position with
  | nil => exact absurd hvalue (Nat.not_le.mpr htotal)
  | cons byte others ih =>
      have hbyte : Byte.isDigit byte = true := hdigits byte List.mem_cons_self
      have hroom := Decimal.hasRoom_iff htotal (Decimal.digit_le hbyte)
      by_cases hsmall : 10 * total + Decimal.digit byte < Decimal.signedBound
      · simp only [List.cons_append, literalDigits, hbyte, hroom.mpr hsmall, decide_true,
          Bool.and_self, ↓reduceIte, Decimal.ofNat_mul_add]
        exact ih (fun other hmem => hdigits other (List.mem_cons_of_mem _ hmem)) _ _ hsmall hvalue
      · refine ⟨Int64.ofNat total, position, byte, others ++ rest, hbyte, ?_⟩
        simp [literalDigits, mt hroom.mp hsmall]

section Readers

variable {grammar : Grammar} (hfailure : grammar.failure = none) {scanner : Scanner} {rest : Bytes}

include hfailure in
theorem number_eq {digits : Bytes} (hunread : scanner.unread = digits ++ rest)
    (hdigits : ∀ byte ∈ digits, Byte.isDigit byte = true) (hstops : Stops Byte.isDigit rest)
    (hvalue : Decimal.value digits < Decimal.signedBound) :
    number grammar scanner =
      .ok (.number (Int64.ofNat (Decimal.value digits)))
        { scanner with unread := rest, position := scanner.position.after digits } := by
  have hread := literalDigits_value hdigits hstops scanner.position hvalue
  simp only [number, hunread, hread]
  cases rest with
  | nil => simp [hfailure]
  | cons byte others =>
      have hbyte : Byte.isDigit byte = false := hstops byte (by simp)
      simp [hbyte]

theorem number_large {digits : Bytes} (hunread : scanner.unread = digits ++ rest)
    (hdigits : ∀ byte ∈ digits, Byte.isDigit byte = true)
    (hvalue : Decimal.signedBound ≤ Decimal.value digits) :
    ∃ unread position, number grammar scanner =
      .error (errorAt grammar scanner.position .literalOutOfRange [])
        { scanner with unread, position } := by
  obtain ⟨read, position, byte, others, hbyte, hread⟩ :=
    literalDigits_large hdigits rest 0 scanner.position (by decide) hvalue
  have hread : literalDigits 0 scanner.position (digits ++ rest) =
      (read, position, byte :: others) := hread
  refine ⟨byte :: others, position, ?_⟩
  simp only [number, hunread, hread, hbyte, ↓reduceIte]

include hfailure in
theorem identifier_eq {name : Bytes} (hunread : scanner.unread = name ++ rest)
    (hname : ∀ byte ∈ name, Byte.isNameByte byte = true) (hstops : Stops Byte.isNameByte rest) :
    identifier grammar scanner =
      .ok (.variable name)
        { unread := rest, position := scanner.position.after name
          names := name :: scanner.names } := by
  simp only [identifier, bind, EStateM.bind, takeRun_eq hunread hname hstops, checkEnd_eq hfailure]
  rfl

theorem advance_eq {byte : UInt8} (hunread : scanner.unread = byte :: rest) :
    advance scanner =
      .ok ⟨⟩ { scanner with unread := rest, position := scanner.position.next byte } := by
  simp only [advance, hunread]

theorem quoted_eq {quote : UInt8} {contents : Bytes}
    (hunread : scanner.unread = quote :: (contents ++ quote :: rest)) (hquote : quote ∉ contents) :
    quoted grammar quote scanner =
      .ok (.text contents)
        { scanner with
          unread := rest
          position := scanner.position.after (quote :: (contents ++ [quote])) } := by
  have hcontents : ∀ byte ∈ contents, (byte != quote) = true := by
    intro byte hmem
    simpa using ne_of_mem_of_not_mem hmem hquote
  have hstops : Stops (· != quote) (quote :: rest) := by simp [Stops]
  unfold quoted
  refine (bind_ok rfl).trans ((bind_ok (advance_eq hunread)).trans ?_)
  refine (bind_ok (takeRun_eq rfl hcontents hstops)).trans ((bind_ok rfl).trans ?_)
  simp only [List.isEmpty_cons, Bool.false_eq_true, ↓reduceIte]
  refine (bind_ok (advance_eq rfl)).trans ?_
  simp only [pure, EStateM.pure, Position.after, List.foldl_cons, List.foldl_append, List.foldl_nil]

/-- A string without its end runs up to the end of the source, which is its cause. -/
theorem quoted_cut {quote : UInt8} {contents : Bytes}
    (hunread : scanner.unread = quote :: contents) (hquote : quote ∉ contents) :
    quoted grammar quote scanner =
      .error
        (errorAt grammar scanner.position .unterminatedString
          [match grammar.failure with
            | none => .unexpectedEnd
            | some text => .plain text])
        { scanner with unread := [], position := scanner.position.after (quote :: contents) } := by
  have hcontents : ∀ byte ∈ contents, (byte != quote) = true := by
    intro byte hmem
    simpa using ne_of_mem_of_not_mem hmem hquote
  have hstops : Stops (· != quote) [] := by simp [Stops]
  unfold quoted
  refine (bind_ok rfl).trans ((bind_ok (advance_eq hunread)).trans ?_)
  refine (bind_ok (takeRun_eq (List.append_nil contents).symm hcontents hstops)).trans ?_
  exact (bind_ok rfl).trans rfl

include hfailure in
theorem quoted_unclosed {quote : UInt8} {contents : Bytes}
    (hunread : scanner.unread = quote :: contents) (hquote : quote ∉ contents) :
    quoted grammar quote scanner =
      .error (errorAt grammar scanner.position .unterminatedString [.unexpectedEnd])
        { scanner with unread := [], position := scanner.position.after (quote :: contents) } := by
  rw [quoted_cut hunread hquote, hfailure]

end Readers

/-- The name that an expression by itself adds to the variables met. -/
def noted : Tree → List Bytes → List Bytes
  | .variable name, names => name :: names
  | _, names => names

theorem noted_of_wordLiteral? {letter : UInt8} {tree : Tree}
    (hliteral : wordLiteral? letter = some tree) (names : List Bytes) :
    noted tree names = names := by
  unfold wordLiteral? at hliteral
  split_ifs at hliteral <;> (cases hliteral; rfl)

section Readers

variable {grammar : Grammar} (hfailure : grammar.failure = none) {scanner : Scanner} {rest : Bytes}
  {others : Bytes} {letter : UInt8}

include hfailure in
/-- What a word means is decided by its first letter. -/
theorem head_word (hunread : scanner.unread = letter :: (others ++ rest))
    (hupper : Byte.isUpper letter = true) (hothers : ∀ byte ∈ others, Byte.isWordByte byte = true)
    (hstops : Stops Byte.isWordByte rest) :
    head grammar letter scanner =
      match wordLiteral? letter, grammar.functions.find? letter with
      | some tree, _ =>
          .ok (.literal tree)
            { scanner with
              unread := rest, position := scanner.position.after (letter :: others) }
      | none, some function =>
          .ok (.function function)
            { scanner with
              unread := rest, position := scanner.position.after (letter :: others) }
      | none, none =>
          .error (errorAt grammar scanner.position (.unknownFunction letter) [])
            { scanner with
              unread := rest, position := scanner.position.after (letter :: others) } := by
  unfold head
  refine (bind_ok rfl).trans ?_
  simp only [hupper, ↓reduceIte]
  refine (bind_ok (advance_eq hunread)).trans ?_
  refine (bind_ok (takeRun_eq rfl hothers hstops)).trans ?_
  refine (bind_ok (checkEnd_eq hfailure _)).trans ?_
  by_cases hyes : letter = 84
  · subst hyes
    rfl
  by_cases hno : letter = 70
  · subst hno
    rfl
  by_cases hnull : letter = 78
  · subst hnull
    rfl
  simp only [beq_iff_eq, hyes, hno, hnull, ↓reduceIte, wordLiteral?]
  cases grammar.functions.find? letter with
  | none => rfl
  | some function => rfl

theorem head_symbol {byte : UInt8} (hunread : scanner.unread = byte :: rest)
    (hupper : Byte.isUpper byte = false) :
    head grammar byte scanner =
      match grammar.functions.find? byte with
      | some function =>
          .ok (.function function)
            { scanner with unread := rest, position := scanner.position.next byte }
      | none => .error (errorAt grammar scanner.position (.unknownToken byte) []) scanner := by
  unfold head
  refine (bind_ok rfl).trans ?_
  simp only [hupper, Bool.false_eq_true, ↓reduceIte]
  cases grammar.functions.find? byte with
  | none => rfl
  | some function => exact bind_ok (advance_eq hunread)

end Readers

end Scan

/-! ### Shapes -/

namespace Byte

theorem forall_of_code {property : UInt8 → Prop}
    (hcode : ∀ code : Fin 256, property (.ofFin code)) (byte : UInt8) : property byte :=
  hcode byte.toFin

theorem opens_of_isDigit : ∀ byte, isDigit byte = true →
    isSeparator byte = false ∧ byte ≠ 35 :=
  forall_of_code (by decide +kernel)

theorem opens_of_isNameStart : ∀ byte, isNameStart byte = true →
    isSeparator byte = false ∧ byte ≠ 35 ∧ isDigit byte = false ∧ isNameByte byte = true :=
  forall_of_code (by decide +kernel)

/-- Whether a byte begins a word or a symbol. -/
def isHead (byte : UInt8) : Bool :=
  !isSeparator byte && byte != 35 && !isDigit byte && !isNameStart byte && byte != 34 && byte != 39

theorem isHead_of_isUpper : ∀ byte, isUpper byte = true → isHead byte = true :=
  forall_of_code (by decide +kernel)

theorem isHead_of_free : ∀ byte, isReserved byte = false → isHead byte = true :=
  forall_of_code (by decide +kernel)

theorem isUpper_of_wordLiteral? : ∀ byte, (wordLiteral? byte).isSome = true → isUpper byte = true :=
  forall_of_code (by decide +kernel)

/-- The bytes that begin a word or a symbol are those of the literals and those that are free to
name a function. -/
theorem wordLiteral?_eq_none_iff : ∀ byte, isHead byte = true →
    ((wordLiteral? byte).isNone = true ↔ isReserved byte = false) :=
  forall_of_code (by decide +kernel)

end Byte

/-- The tokens that nothing can be made of, and why. -/
inductive Wrong (table : FunctionTable) (rest : Bytes) : Bytes → Reason → Prop where
  | number {digits : Bytes} :
      digits ≠ [] → (∀ byte ∈ digits, Byte.isDigit byte = true) → Stops Byte.isDigit rest →
      Decimal.signedBound ≤ Decimal.value digits → Wrong table rest digits .literalOutOfRange
  | word {letter : UInt8} {others : Bytes} :
      Byte.isUpper letter = true → Byte.isReserved letter = false → table.find? letter = none →
      (∀ byte ∈ others, Byte.isWordByte byte = true) → Stops Byte.isWordByte rest →
      Wrong table rest (letter :: others) (.unknownFunction letter)
  | symbol {byte : UInt8} :
      Byte.isUpper byte = false → Byte.isReserved byte = false → table.find? byte = none →
      Wrong table rest [byte] (.unknownToken byte)

/-- What bytes can begin with. -/
inductive Shape (table : FunctionTable) : Bytes → Prop where
  | void {bytes : Bytes} : Void bytes → Shape table bytes
  | atom {blank token rest : Bytes} {tree : Tree} :
      Blank blank → Atom rest token tree → Shape table (blank ++ (token ++ rest))
  | application {blank others rest : Bytes} {byte : UInt8} {function : Function} :
      Blank blank → Names table rest (byte :: others) function → Byte.isReserved byte = false →
      Shape table (blank ++ (byte :: others ++ rest))
  | unclosed {blank contents : Bytes} {quote : UInt8} :
      Blank blank → quote = 34 ∨ quote = 39 → quote ∉ contents →
      Shape table (blank ++ quote :: contents)
  | wrong {blank token rest : Bytes} {reason : Reason} :
      Blank blank → Wrong table rest token reason → Shape table (blank ++ (token ++ rest))

theorem shape_of_isUpper (table : FunctionTable) {blank rest : Bytes} {letter : UInt8}
    (hblank : Blank blank) (hupper : Byte.isUpper letter = true) :
    Shape table (blank ++ letter :: rest) := by
  obtain ⟨others, rest, rfl, hothers, hstops⟩ := exists_run Byte.isWordByte rest
  cases hliteral : wordLiteral? letter with
  | some tree => exact .atom hblank (.word hliteral hothers hstops)
  | none =>
      have hfree : Byte.isReserved letter = false := by
        rw [← Byte.wordLiteral?_eq_none_iff letter (Byte.isHead_of_isUpper letter hupper), hliteral]
        rfl
      cases hfind : table.find? letter with
      | some function =>
          exact .application hblank (.word hupper hfind hothers hstops) hfree
      | none => exact .wrong hblank (.word hupper hfree hfind hothers hstops)

theorem shape_of_isDigit (table : FunctionTable) {blank rest : Bytes} {byte : UInt8}
    (hblank : Blank blank) (hdigit : Byte.isDigit byte = true) :
    Shape table (blank ++ byte :: rest) := by
  obtain ⟨digits, rest, hrun, hdigits, hstops⟩ := exists_run Byte.isDigit (byte :: rest)
  have hne : digits ≠ [] := by
    rintro rfl
    have hfirst := hstops byte (by rw [← List.nil_append rest, ← hrun]; rfl)
    simp [hfirst] at hdigit
  rw [hrun]
  rcases Nat.lt_or_ge (Decimal.value digits) Decimal.signedBound with hvalue | hvalue
  · exact .atom hblank (.number hne hdigits hstops hvalue)
  · exact .wrong hblank (.number hne hdigits hstops hvalue)

theorem shape_of_quote (table : FunctionTable) {blank rest : Bytes} {quote : UInt8}
    (hblank : Blank blank) (hquote : quote = 34 ∨ quote = 39) :
    Shape table (blank ++ quote :: rest) := by
  by_cases hclosed : quote ∈ rest
  · obtain ⟨contents, rest, rfl, hcontents⟩ := List.eq_append_cons_of_mem hclosed
    have hshape : Shape table (blank ++ (quote :: (contents ++ [quote]) ++ rest)) :=
      .atom hblank (.text hquote hcontents)
    simpa using hshape
  · exact .unclosed hblank hquote hclosed

theorem shape_total (table : FunctionTable) (bytes : Bytes) : Shape table bytes := by
  rcases void_or_opens bytes with hvoid | ⟨blank, byte, rest, rfl, hblank, hopens⟩
  · exact .void hvoid
  by_cases hdigit : Byte.isDigit byte = true
  · exact shape_of_isDigit table hblank hdigit
  by_cases hname : Byte.isNameStart byte = true
  · obtain ⟨others, rest, rfl, hothers, hstops⟩ := exists_run Byte.isNameByte rest
    exact .atom hblank (.variable hname hothers hstops)
  by_cases hquote : byte = 34 ∨ byte = 39
  · exact shape_of_quote table hblank hquote
  by_cases hupper : Byte.isUpper byte = true
  · exact shape_of_isUpper table hblank hupper
  have hhead : Byte.isHead byte = true := by
    rw [not_or] at hquote
    simp [Byte.isHead, hopens.separator, hopens.comment, hdigit, hname, hquote]
  have hfree : Byte.isReserved byte = false := by
    rw [← Byte.wordLiteral?_eq_none_iff byte hhead, Option.isNone_iff_eq_none,
      Option.eq_none_iff_forall_ne_some]
    intro tree hliteral
    exact hupper (Byte.isUpper_of_wordLiteral? byte (by rw [hliteral]; rfl))
  cases hfind : table.find? byte with
  | some function => exact .application hblank (.symbol (by simpa using hupper) hfind) hfree
  | none => exact .wrong hblank (.symbol (by simpa using hupper) hfree hfind)

/-! ### Reading each shape -/

namespace Scan

variable {grammar : Grammar} (hfailure : grammar.failure = none) {scanner : Scanner}
  {blank token rest : Bytes} (hblank : Blank blank) (budget : Nat)

include hfailure in
theorem expression_void (hvoid : Void scanner.unread) :
    expression grammar budget scanner =
      .error .endOfInput
        { scanner with unread := [], position := scanner.position.after scanner.unread } := by
  rw [expression.eq_def]
  exact bind_error (peekToken_void hfailure hvoid)

section Dispatch

variable {byte : UInt8} (hunread : scanner.unread = blank ++ byte :: rest)

include hblank hunread

theorem expression_of_isDigit (hdigit : Byte.isDigit byte = true) :
    expression grammar budget scanner =
      number grammar
        { scanner with unread := byte :: rest, position := scanner.position.after blank } := by
  obtain ⟨hseparator, hcomment⟩ := Byte.opens_of_isDigit byte hdigit
  rw [expression.eq_def]
  refine (bind_ok (peekToken_opens grammar hunread hblank ⟨hseparator, hcomment⟩)).trans ?_
  refine (bind_ok rfl).trans ?_
  simp only [hdigit, ↓reduceIte]

theorem expression_of_isNameStart (hname : Byte.isNameStart byte = true) :
    expression grammar budget scanner =
      identifier grammar
        { scanner with unread := byte :: rest, position := scanner.position.after blank } := by
  obtain ⟨hseparator, hcomment, hdigit, -⟩ := Byte.opens_of_isNameStart byte hname
  rw [expression.eq_def]
  refine (bind_ok (peekToken_opens grammar hunread hblank ⟨hseparator, hcomment⟩)).trans ?_
  refine (bind_ok rfl).trans ?_
  simp only [hdigit, hname, Bool.false_eq_true, ↓reduceIte]

theorem expression_of_quote (hquote : byte = 34 ∨ byte = 39) :
    expression grammar budget scanner =
      quoted grammar byte
        { scanner with unread := byte :: rest, position := scanner.position.after blank } := by
  have hopens : Byte.isSeparator byte = false ∧ byte ≠ 35 ∧ Byte.isDigit byte = false ∧
      Byte.isNameStart byte = false ∧ (byte == 34 || byte == 39) = true := by
    rcases hquote with rfl | rfl <;> decide
  obtain ⟨hseparator, hcomment, hdigit, hname, hquote⟩ := hopens
  rw [expression.eq_def]
  refine (bind_ok (peekToken_opens grammar hunread hblank ⟨hseparator, hcomment⟩)).trans ?_
  refine (bind_ok rfl).trans ?_
  simp only [hdigit, hname, hquote, Bool.false_eq_true, ↓reduceIte]

theorem expression_of_isHead (hhead : Byte.isHead byte = true) :
    expression grammar budget scanner =
      (do
        match ← head grammar byte with
        | .literal tree => return tree
        | .function function =>
          match budget with
          | 0 =>
            throw (errorAt grammar (scanner.position.after blank)
              (.expressionDepth grammar.limit) [])
          | budget + 1 =>
            return .apply function
              (← arguments grammar (expression grammar budget) function
                (scanner.position.after blank) 1 function.arity) : Scan Tree)
        { scanner with unread := byte :: rest, position := scanner.position.after blank } := by
  simp only [Byte.isHead, Bool.and_eq_true, Bool.not_eq_true', bne_iff_ne, ne_eq] at hhead
  obtain ⟨⟨⟨⟨⟨hseparator, hcomment⟩, hdigit⟩, hname⟩, hdouble⟩, hsingle⟩ := hhead
  have hlast (read : Scan Tree) : (if Byte.isDigit byte then number grammar
      else if Byte.isNameStart byte then identifier grammar
      else if byte == 34 || byte == 39 then quoted grammar byte else read) = read := by
    simp only [hdigit, hname, hdouble, hsingle, beq_iff_eq, or_self, Bool.false_eq_true,
      Bool.or_eq_true, ↓reduceIte]
  rw [expression.eq_def]
  refine (bind_ok (peekToken_opens grammar hunread hblank ⟨hseparator, hcomment⟩)).trans ?_
  exact (bind_ok rfl).trans (congrFun (hlast _) _)

end Dispatch

include hfailure hblank in
theorem expression_atom {tree : Tree} (hunread : scanner.unread = blank ++ (token ++ rest))
    (hatom : Atom rest token tree) :
    expression grammar budget scanner =
      .ok tree
        { unread := rest, position := scanner.position.after (blank ++ token)
          names := noted tree scanner.names } := by
  rw [Position.after_append]
  cases hatom with
  | number hne hdigits hstops hvalue =>
      obtain ⟨byte, others, rfl⟩ := List.exists_cons_of_ne_nil hne
      rw [expression_of_isDigit hblank budget hunread (hdigits byte List.mem_cons_self)]
      exact number_eq hfailure rfl hdigits hstops hvalue
  | @«variable» first others hname hothers hstops =>
      obtain ⟨-, -, -, hfirst⟩ := Byte.opens_of_isNameStart first hname
      have hbytes : ∀ byte ∈ first :: others, Byte.isNameByte byte = true := by
        simpa [hfirst] using hothers
      rw [expression_of_isNameStart hblank budget hunread hname]
      exact identifier_eq hfailure rfl hbytes hstops
  | @text quote contents hquote hcontents =>
      rw [expression_of_quote hblank budget hunread hquote]
      exact quoted_eq (by simp) hcontents
  | @word letter others _ hliteral hothers hstops =>
      have hupper := Byte.isUpper_of_wordLiteral? letter (by rw [hliteral]; rfl)
      have hword (scanner : Scanner) (hunread : scanner.unread = letter :: (others ++ rest)) :=
        head_word hfailure hunread hupper hothers hstops
      simp only [hliteral] at hword
      rw [expression_of_isHead hblank budget hunread (Byte.isHead_of_isUpper letter hupper)]
      refine (bind_ok (hword _ rfl)).trans ?_
      rw [noted_of_wordLiteral? hliteral]
      rfl

include hfailure in
theorem head_free {byte : UInt8} {others : Bytes} {function : Function}
    (hunread : scanner.unread = byte :: (others ++ rest))
    (hnames : Names grammar.functions rest (byte :: others) function)
    (hfree : Byte.isReserved byte = false) :
    head grammar byte scanner =
      .ok (.function function)
        { scanner with
          unread := rest, position := scanner.position.after (byte :: others) } := by
  cases hnames with
  | word hupper hfind hothers hstops =>
      have hhead := Byte.isHead_of_free byte hfree
      have hliteral := (Byte.wordLiteral?_eq_none_iff byte hhead).mpr hfree
      rw [Option.isNone_iff_eq_none] at hliteral
      rw [head_word hfailure hunread hupper hothers hstops, hliteral, hfind]
  | symbol hupper hfind =>
      rw [head_symbol hunread hupper, hfind]
      rfl

section Applications

variable {byte : UInt8} {others : Bytes} {function : Function}
  (hunread : scanner.unread = blank ++ (byte :: others ++ rest))
  (hnames : Names grammar.functions rest (byte :: others) function)
  (hfree : Byte.isReserved byte = false)

include hfailure hblank hunread hnames hfree

theorem expression_application_zero :
    expression grammar 0 scanner =
      .error
        (errorAt grammar (scanner.position.after blank) (.expressionDepth grammar.limit) [])
        { scanner with
          unread := rest, position := scanner.position.after (blank ++ byte :: others) } := by
  rw [Position.after_append,
    expression_of_isHead hblank 0 hunread (Byte.isHead_of_free byte hfree)]
  exact bind_ok (head_free hfailure rfl hnames hfree)

/-- An application is read by reading its arguments one level deeper. -/
theorem expression_application_succ :
    expression grammar (budget + 1) scanner =
      (do
        return .apply function
          (← arguments grammar (expression grammar budget) function
            (scanner.position.after blank) 1 function.arity) : Scan Tree)
        { scanner with
          unread := rest, position := scanner.position.after (blank ++ byte :: others) } := by
  rw [Position.after_append,
    expression_of_isHead hblank (budget + 1) hunread (Byte.isHead_of_free byte hfree)]
  exact bind_ok (head_free hfailure rfl hnames hfree)

end Applications

include hfailure hblank in
theorem expression_unclosed {quote : UInt8} {contents : Bytes}
    (hunread : scanner.unread = blank ++ quote :: contents) (hquote : quote = 34 ∨ quote = 39)
    (hcontents : quote ∉ contents) :
    expression grammar budget scanner =
      .error
        (errorAt grammar (scanner.position.after blank) .unterminatedString [.unexpectedEnd])
        { scanner with
          unread := [], position := scanner.position.after (blank ++ quote :: contents) } := by
  rw [Position.after_append, expression_of_quote hblank budget hunread hquote]
  exact quoted_unclosed hfailure rfl hcontents

include hfailure hblank in
theorem expression_wrong {reason : Reason} (hunread : scanner.unread = blank ++ (token ++ rest))
    (hwrong : Wrong grammar.functions rest token reason) :
    ∃ unread position, expression grammar budget scanner =
      .error (errorAt grammar (scanner.position.after blank) reason [])
        { scanner with unread, position } := by
  cases hwrong with
  | number hne hdigits hstops hvalue =>
      obtain ⟨byte, others, rfl⟩ := List.exists_cons_of_ne_nil hne
      rw [expression_of_isDigit hblank budget hunread (hdigits byte List.mem_cons_self)]
      exact number_large rfl hdigits hvalue
  | @word letter others hupper hfree hfind hothers hstops =>
      have hhead := Byte.isHead_of_isUpper letter hupper
      have hliteral := (Byte.wordLiteral?_eq_none_iff letter hhead).mpr hfree
      rw [Option.isNone_iff_eq_none] at hliteral
      have hword (scanner : Scanner) (hunread : scanner.unread = letter :: (others ++ rest)) :=
        head_word hfailure hunread hupper hothers hstops
      simp only [hliteral, hfind] at hword
      rw [expression_of_isHead hblank budget hunread hhead]
      exact ⟨rest, _, bind_error (hword _ rfl)⟩
  | @symbol byte hupper hfree hfind =>
      have hsymbol (scanner : Scanner) (hunread : scanner.unread = byte :: rest) :
          head grammar byte scanner =
            .error (errorAt grammar scanner.position (.unknownToken byte) []) scanner := by
        rw [head_symbol hunread hupper, hfind]
      rw [expression_of_isHead hblank budget hunread (Byte.isHead_of_free byte hfree)]
      exact ⟨byte :: rest, _, bind_error (hsymbol _ rfl)⟩

end Scan

end KnightLang
