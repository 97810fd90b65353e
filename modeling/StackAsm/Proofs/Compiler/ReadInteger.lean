import StackAsm.Proofs.Compiler.Input

set_option autoImplicit false

/-!
# How compiled programs read integers

A compiled program reads an integer digit by digit and stops before the number exceeds what its sign
permits. So it accepts the numerals whose value is a word, which is what the machine asks of a
numeral after it has taken it off the input.

## Main definitions

* `StackAsm.Compiler.reading` — the state while an integer is read.
* `StackAsm.Compiler.spelled` — the number that digits spell behind a number.
* `StackAsm.Compiler.readResult` — what becomes of reading a numeral.

## Main results

* `StackAsm.Compiler.exec_takeDigit`, `StackAsm.Compiler.iterate_digits` — one digit, and all.
* `StackAsm.Compiler.readInt_meaning` — reading an integer.
-/

namespace StackAsm.Compiler

open C

/-- The variables while an integer is read: the next byte, whether there was a minus sign, the
greatest number that is permitted, and the number so far. -/
def readVars (bytes : Bytes) (negative : Bool) (limit : Option Nat) (n : Nat) : List Variable :=
  [⟨"n", .uint64, some (.int .uint64 n)⟩,
    ⟨"limit", .uint64, limit.map fun l : Nat => .int .uint64 l⟩,
    ⟨"negative", .int, some (.ofBool negative)⟩, ⟨"c", .int, some (.int .int (front bytes))⟩]

section Read

variable {size fuel : Nat} {functions : List Function} {stack free : List Word}
  (output diagnostics : Bytes)
  (getchar : "getchar" ∉ functions.map Function.name)

/-- The state while an integer is read, `bytes` being what is to be read yet. -/
def reading (stack free : List Word) (bytes : Bytes) (negative : Bool) (limit : Option Nat)
    (n : Nat) (output diagnostics : Bytes) : State :=
  memory stack free (readVars bytes negative limit n) bytes.tail output diagnostics

/-- The variable `c` holds the byte in front. -/
lemma readName_reading (visible : Scope) (stack free : List Word) (bytes : Bytes)
    (negative : Bool) (limit : Option Nat) (n : Nat) :
    readName visible "c" (reading stack free bytes negative limit n output diagnostics) =
      .ok (.int .int (front bytes))
        (reading stack free bytes negative limit n output diagnostics) := by
  simp [reading, readVars]

include getchar in
/-- The next byte is read into the variable for it. -/
lemma exec_nextByte (bytes : Bytes) (negative : Bool) (limit : Option Nat) (n : Nat) :
    (nextByte "c").exec (scope size fuel functions) fuel none
        (reading stack free bytes negative limit n output diagnostics) =
      .ok .next (reading stack free bytes.tail negative limit n output diagnostics) := by
  have call := callFunction_of_notMem size fuel functions getchar
  simp [nextByte, reading, readVars, call]

variable {before : List Function} (spaces : callFunction (scope size fuel functions) "is_space" =
  isSpace.meaning (scope size fuel before) fuel)

variable (stack free) in
include spaces getchar in
/-- The loop that reads blanks. -/
lemma iterate_blanks (bytes : Bytes) : ∀ turns,
    Result.Is turns bytes.length
      (.ok .next (reading stack free (bytes.dropWhile Numeral.isBlank) false none 0 output
        diagnostics))
      (iterate (Expr.test (scope size fuel functions) (.call "is_space" [.name "c"]))
        ((nextByte "c").exec (scope size fuel functions) fuel none) (pure ()) turns
        (reading stack free bytes false none 0 output diagnostics)) := by
  have test (bytes : Bytes) : Expr.test (scope size fuel functions) (.call "is_space" [.name "c"])
      (reading stack free bytes false none 0 output diagnostics) =
      .ok (bytes.head?.any Numeral.isBlank)
        (reading stack free bytes false none 0 output diagnostics) := by
    simp [reading, readVars, spaces, isSpace_meaning]
  induction bytes with
  | nil =>
    intro turns
    exact iterate_end (test [])
  | cons b bytes ih =>
    intro turns
    by_cases blank : Numeral.isBlank b
    · rw [List.dropWhile_cons_of_pos blank]
      refine iterate_turn ((test (b :: bytes)).trans ?_)
        (exec_nextByte output diagnostics getchar (b :: bytes) false none 0) (.inl rfl) rfl ih
      simp [blank]
    · rw [List.dropWhile_cons_of_neg blank]
      refine (iterate_end ((test (b :: bytes)).trans ?_)).mono (Nat.zero_le _)
      simp [blank]

/-! ## The sign -/

/-- The statement that reads a sign. -/
def readSign : Stmt :=
  .ifThen (isOneOf "c" ['-', '+'])
    (.block .lines (.seq .lines
      (.expr (.assign (.name "negative") (.bin .eq (.name "c") (.char '-')))) (nextByte "c")))

variable (size fuel stack free) in
omit spaces in
include getchar in
/-- A sign is read if there is one, and it is kept whether it was a minus sign. -/
lemma exec_readSign (bytes : Bytes) :
    readSign.exec (scope size fuel functions) fuel none
        (reading stack free bytes false none 0 output diagnostics) =
      .ok .next (reading stack free (Numeral.splitSign bytes).2
        ((Numeral.splitSign bytes).1 = [45]) none 0 output diagnostics) := by
  have call := callFunction_of_notMem size fuel functions getchar
  have test := eval_isOneOf (readName_reading output diagnostics (scope size fuel functions) stack
    free bytes false none 0) (front_small bytes) ['-', '+']
  rw [any_sign] at test
  rw [readSign, Stmt.exec_ifThen_of_eval test]
  cases bytes with
  | nil => simp [Numeral.splitSign]
  | cons b bytes =>
    by_cases sign : Numeral.isSign b
    · have same : front (b :: bytes) = 45 ↔ b = 45 := by
        rw [← UInt8.toNat_inj]
        show (b.toNat : Int) = 45 ↔ b.toNat = 45
        omega
      have minus : BinOp.eq.apply (.int .int (front (b :: bytes))) (.int .int 45) =
          some (.ofBool (b = 45)) := by
        rw [BinOp.apply_ints (front_small _) (by decide), BinOp.onCommon]
        simp only [same]
      simp [reading, readVars, sign, nextByte, call, Numeral.splitSign, minus]
    · simp [sign, Numeral.splitSign]

/-! ## Digits -/

/-- What the loop does with a digit. -/
def takeDigit : Stmt :=
  .block .lines (.seq .lines
    (.declare .uint64 [("digit", some (.cast .uint64 (.bin .sub (.name "c") (.char '0'))))])
    (.seq .lines
      (.ifThen
        (.bin .gt (.name "n") (.bin .div (.bin .sub (.name "limit") (.name "digit")) (.num 10)))
        (failWith "invalid input"))
      (.seq .lines
        (.expr (.assign (.name "n") (.bin .add (.bin .mul (.name "n") (.num 10)) (.name "digit"))))
        (nextByte "c"))))

/-- The test that stops before a number exceeds its limit. -/
lemma compare_limit {limit n d : Nat} (most : limit < 2 ^ 64) (digit : d < 10)
    (least : 10 ≤ limit) (bound : n ≤ limit) :
    BinOp.sub.apply (.int .uint64 limit) (.int .uint64 d) = some (.int .uint64 (limit - d : Nat)) ∧
      BinOp.div.apply (.int .uint64 (limit - d : Nat)) (.int .int 10) =
        some (.int .uint64 ((limit - d) / 10 : Nat)) ∧
      BinOp.gt.apply (.int .uint64 n) (.int .uint64 ((limit - d) / 10 : Nat)) =
        some (.ofBool (limit < 10 * n + d)) := by
  refine ⟨?_, ?_, ?_⟩
  · rw [BinOp.apply_unsigned (.inr rfl) most (by omega), BinOp.onCommon,
      ← Int.natCast_sub (by omega)]
    exact CType.result?_uint64_natCast (by omega)
  · rw [show (10 : Int) = (10 : Nat) from rfl,
      BinOp.apply_unsigned (.inl rfl) (by omega) (by omega), BinOp.onCommon, if_neg (by decide),
      ← Int.ofNat_tdiv]
    exact CType.result?_uint64_natCast (by omega)
  · rw [BinOp.apply_unsigned (.inr rfl) (by omega) (by omega), BinOp.onCommon]
    have same : ((n : Int) > ((limit - d) / 10 : Nat)) ↔ limit < 10 * n + d := by omega
    simp only [same]

/-- A digit behind a number. -/
lemma append_digit {n d : Nat} (bound : 10 * n + d < 2 ^ 64) :
    BinOp.mul.apply (.int .uint64 n) (.int .int 10) = some (.int .uint64 (10 * n : Nat)) ∧
      BinOp.add.apply (.int .uint64 (10 * n : Nat)) (.int .uint64 d) =
        some (.int .uint64 (10 * n + d : Nat)) := by
  constructor
  · rw [show (10 : Int) = (10 : Nat) from rfl,
      BinOp.apply_unsigned (.inl rfl) (by omega) (by omega), BinOp.onCommon, ← Int.natCast_mul,
      Nat.mul_comm]
    exact CType.result?_uint64_natCast (by omega)
  · rw [BinOp.apply_unsigned (.inr rfl) (by omega) (by omega), BinOp.onCommon, ← Int.natCast_add]
    exact CType.result?_uint64_natCast bound

variable (fails : Failing (scope size fuel functions))

/-- The value of a digit. -/
def digitValue (b : UInt8) : Nat := b.toNat - 48

/-- The code of a digit less that of zero is the value of the digit. -/
lemma sub_digit {b : UInt8} (digit : Numeral.isDigit b) (bytes : Bytes) :
    digitValue b < 10 ∧ BinOp.sub.apply (.int .int (front (b :: bytes))) (.int .int 48) =
      some (.int .int (digitValue b)) := by
  simp only [Numeral.isDigit, Bool.and_eq_true, decide_eq_true_eq, UInt8.le_iff_toNat_le] at digit
  obtain ⟨low, high⟩ : 48 ≤ b.toNat ∧ b.toNat ≤ 57 := digit
  have value : front (b :: bytes) - 48 = digitValue b := by
    simp only [front, digitValue]
    omega
  refine ⟨by simp only [digitValue]; omega, ?_⟩
  rw [BinOp.apply_ints (front_small _) (by decide), BinOp.onCommon, value]
  apply CType.result?_int <;> simp only [digitValue] <;> omega

variable (size fuel stack free) in
include getchar fails in
/-- A digit is put behind the number so far, if the limit permits it. -/
theorem exec_takeDigit {b : UInt8} (digit : Numeral.isDigit b) (bytes : Bytes) (negative : Bool)
    {limit n : Nat} (least : 10 ≤ limit) (most : limit < 2 ^ 63 + 1) (bound : n ≤ limit) :
    takeDigit.exec (scope size fuel functions) fuel none
        (reading stack free (b :: bytes) negative (some limit) n output diagnostics) =
      if 10 * n + digitValue b ≤ limit then
        .ok .next (reading stack free bytes negative (some limit) (10 * n + digitValue b) output
          diagnostics)
      else failure "invalid input" stack free bytes output diagnostics := by
  have call := callFunction_of_notMem size fuel functions getchar
  obtain ⟨small, value⟩ := sub_digit digit bytes
  have fits : CType.uint64.convert (digitValue b) = digitValue b :=
    CType.convert_uint64_natCast (by omega)
  obtain ⟨room, tenth, test⟩ := compare_limit (by omega) small least bound
  by_cases accepted : 10 * n + digitValue b ≤ limit
  · obtain ⟨product, sum⟩ := append_digit (n := n) (d := digitValue b) (by omega)
    rw [decide_eq_false (by omega)] at test
    have total : CType.uint64.convert (10 * n + digitValue b : Nat) =
        (10 * n + digitValue b : Nat) := CType.convert_uint64_natCast (by omega)
    rw [if_pos accepted]
    generalize (limit - digitValue b) / 10 = tenths at *
    generalize limit - digitValue b = left at *
    generalize 10 * n + digitValue b = result at *
    generalize 10 * n = shifted at *
    simp [takeDigit, reading, readVars, value, fits, room, tenth, test, product, sum, total,
      nextByte, call]
  · rw [decide_eq_true (by omega)] at test
    rw [if_neg accepted]
    generalize (limit - digitValue b) / 10 = tenths at *
    generalize limit - digitValue b = left at *
    simp [takeDigit, reading, readVars, value, fits, room, tenth, test, fails, exec_failWith,
      failure]

/-- The number that digits spell behind a number. -/
def spelled (n : Nat) (digits : Bytes) : Nat :=
  Nat.ofDigitChars 10 (digits.map fun b => Char.ofNat b.toNat) n

/-- The first digit is put behind the number so far, and the others behind that. -/
lemma spelled_cons (b : UInt8) (n : Nat) (digits : Bytes) :
    spelled n (b :: digits) = spelled (10 * n + digitValue b) digits := by
  have char : (Char.ofNat b.toNat).toNat = b.toNat := by
    have valid : b.toNat.isValidChar := .inl (Nat.lt_trans b.toNat_lt (by decide))
    rw [Char.ofNat, dif_pos valid]
    rfl
  rw [spelled, List.map_cons, Nat.ofDigitChars_cons, char]
  rfl

/-- With digits behind it a number gets no smaller. -/
lemma le_spelled (n : Nat) (digits : Bytes) : n ≤ spelled n digits := by
  rw [spelled, Nat.ofDigitChars_eq_ofDigitChars_zero]
  have power : 0 < 10 ^ (digits.map fun b => Char.ofNat b.toNat).length :=
    Nat.pow_pos (by decide)
  have := Nat.le_mul_of_pos_left n power
  omega

variable (stack free) in
include getchar fails in
/-- The loop that reads digits. -/
theorem iterate_digits (negative : Bool) {limit : Nat} (least : 10 ≤ limit)
    (most : limit < 2 ^ 63 + 1) (bytes : Bytes) : ∀ n ≤ limit, ∃ rest, ∀ turns,
    Result.Is turns bytes.length
      (if spelled n (bytes.takeWhile Numeral.isDigit) ≤ limit then
        .ok .next (reading stack free (bytes.dropWhile Numeral.isDigit) negative (some limit)
          (spelled n (bytes.takeWhile Numeral.isDigit)) output diagnostics)
      else failure "invalid input" stack free rest output diagnostics)
      (iterate (Expr.test (scope size fuel functions) (isDigit "c"))
        (takeDigit.exec (scope size fuel functions) fuel none) (pure ()) turns
        (reading stack free bytes negative (some limit) n output diagnostics)) := by
  have test (bytes : Bytes) (n : Nat) : Expr.test (scope size fuel functions) (isDigit "c")
      (reading stack free bytes negative (some limit) n output diagnostics) =
      .ok (bytes.head?.any Numeral.isDigit)
        (reading stack free bytes negative (some limit) n output diagnostics) := by
    have value := eval_isDigit (readName_reading output diagnostics (scope size fuel functions)
      stack free bytes negative (some limit) n) (front_small bytes)
    rw [front_digit] at value
    simp [Expr.test, value]
  induction bytes with
  | nil =>
    intro n bound
    refine ⟨[], fun turns => ?_⟩
    rw [List.takeWhile_nil, List.dropWhile_nil, spelled, List.map_nil, Nat.ofDigitChars_nil,
      if_pos bound]
    exact iterate_end (test [] n)
  | cons b bytes ih =>
    intro n bound
    by_cases digit : Numeral.isDigit b
    · have goes := (test (b :: bytes) n).trans (by rw [List.head?_cons, Option.any_some, digit])
      have turn := exec_takeDigit size fuel stack free output diagnostics getchar fails digit bytes
        negative least most bound
      rw [List.takeWhile_cons_of_pos digit, List.dropWhile_cons_of_pos digit, spelled_cons]
      by_cases accepted : 10 * n + digitValue b ≤ limit
      · rw [if_pos accepted] at turn
        obtain ⟨rest, next⟩ := ih (10 * n + digitValue b) accepted
        exact ⟨rest, fun turns => iterate_turn goes turn (.inl rfl) rfl next⟩
      · rw [if_neg accepted] at turn
        refine ⟨bytes, fun turns => ?_⟩
        rw [if_neg fun h => accepted (Nat.le_trans (le_spelled _ _) h)]
        exact (iterate_exit goes turn).mono (Nat.zero_le _)
    · refine ⟨[], fun turns => ?_⟩
      rw [List.takeWhile_cons_of_neg digit, List.dropWhile_cons_of_neg digit, spelled,
        List.map_nil, Nat.ofDigitChars_nil, if_pos bound]
      refine (iterate_end ((test (b :: bytes) n).trans ?_)).mono (Nat.zero_le _)
      simp [digit]

/-! ## The whole function -/

/-- The greatest number that may stand behind a sign. -/
def limitOf (negative : Bool) : Nat := if negative then 2 ^ 63 else 2 ^ 63 - 1

/-- The check that there is a digit. -/
def requireDigit : Stmt :=
  .ifThen (.bin .or (.bin .lt (.name "c") (.char '0')) (.bin .gt (.name "c") (.char '9')))
    (failWith "invalid input")

/-- The choice of the greatest number. -/
def chooseLimit : Stmt :=
  .expr (.assign (.name "limit") (.cond (.name "negative")
    (.bin .add (.cast .uint64 (.name "INT64_MAX")) (.num 1))
    (.cast .uint64 (.name "INT64_MAX"))))

/-- The return of the byte behind the digits. -/
def giveBack : Stmt :=
  .ifThen (.bin .ne (.name "c") (.name "EOF")) (.expr (.call "ungetc" [.name "c", .name "stdin"]))

variable (stack free) in
include fails in
/-- Without a digit the program ends. -/
lemma exec_requireDigit (bytes : Bytes) (negative : Bool) :
    requireDigit.exec (scope size fuel functions) fuel none
        (reading stack free bytes negative none 0 output diagnostics) =
      if bytes.head?.any Numeral.isDigit then
        .ok .next (reading stack free bytes negative none 0 output diagnostics)
      else failure "invalid input" stack free bytes.tail output diagnostics := by
  have compare {op : BinOp} (strict : op ≠ .and ∧ op ≠ .or) (x : Char) :=
    eval_compare (readName_reading output diagnostics (scope size fuel functions) stack free bytes
      negative Option.none 0) (front_small bytes) strict x
  have test := Expr.eval_or (@compare .lt (by decide) '0') (@compare .gt (by decide) '9')
  have none : (decide (front bytes < 48) || decide (front bytes > 57)) =
      !bytes.head?.any Numeral.isDigit := by
    rw [← front_digit, Bool.eq_iff_iff]
    simp
  rw [requireDigit, Stmt.exec_ifThen_of_eval test, show '0'.toNat = 48 from rfl,
    show '9'.toNat = 57 from rfl]
  simp only [Nat.cast_ofNat, none]
  cases bytes.head?.any Numeral.isDigit with
  | true => rfl
  | false => exact exec_failWith _ _ _ _ fails _

/-- The greatest word and the number behind it, as unsigned numbers. -/
lemma unsigned_limits :
    CType.uint64.convert 9223372036854775807 = 9223372036854775807 ∧
      CType.uint64.convert 9223372036854775808 = 9223372036854775808 ∧
      BinOp.add.apply (.int .uint64 9223372036854775807) (.int .int 1) =
        some (.int .uint64 9223372036854775808) := by
  refine ⟨?_, ?_, ?_⟩
  · exact CType.convert_uint64_natCast (n := 9223372036854775807) (by decide)
  · exact CType.convert_uint64_natCast (n := 9223372036854775808) (by decide)
  · refine (BinOp.apply_unsigned (m := 9223372036854775807) (n := 1) (.inl rfl) (by decide)
      (by decide)).trans ?_
    exact CType.result?_uint64_natCast (n := 9223372036854775808) (by decide)

variable (size fuel functions stack free) in
/-- The limit is chosen by the sign. -/
lemma exec_chooseLimit (bytes : Bytes) (negative : Bool) :
    chooseLimit.exec (scope size fuel functions) fuel none
        (reading stack free bytes negative none 0 output diagnostics) =
      .ok .next (reading stack free bytes negative (some (limitOf negative)) 0 output
        diagnostics) := by
  obtain ⟨most, more, sum⟩ := unsigned_limits
  cases negative with
  | true => simp [chooseLimit, reading, readVars, limitOf, Int64.toInt_maxValue, most, sum, more]
  | false => simp [chooseLimit, reading, readVars, limitOf, Int64.toInt_maxValue, most]

variable (size fuel stack free) in
/-- The byte behind the digits is given back, if there is one. -/
lemma exec_giveBack (ungetc : "ungetc" ∉ functions.map Function.name) (bytes : Bytes)
    (negative : Bool) (limit : Option Nat) (n : Nat) :
    giveBack.exec (scope size fuel functions) fuel none
        (reading stack free bytes negative limit n output diagnostics) =
      .ok .next (memory stack free (readVars bytes negative limit n) bytes output diagnostics) := by
  have call := callFunction_of_notMem size fuel functions ungetc
  have test : BinOp.ne.apply (.int .int (front bytes)) (.int .int (-1)) =
      some (.ofBool (front bytes ≠ -1)) := by
    rw [BinOp.apply_ints (front_small bytes) (by decide), BinOp.onCommon]
  cases bytes with
  | nil =>
    have last : ¬ (front [] ≠ -1) := not_not_intro rfl
    rw [decide_eq_false last] at test
    simp [giveBack, reading, readVars, test]
  | cons b bytes =>
    have byte : byteOf (front (b :: bytes)) = b := by
      have := b.toNat_lt
      rw [byteOf, front, ← UInt8.toNat_inj, UInt8.toNat_ofNat']
      omega
    have more : front (b :: bytes) ≠ -1 := by
      simp only [front]
      omega
    rw [decide_eq_true more] at test
    simp [giveBack, reading, readVars, test, call, byte]

/-- The choice between a number and its opposite. -/
def chooseSign : Expr :=
  .cond (.name "negative") (.cast .int64 (.bin .sub (.num 0) (.name "n")))
    (.cast .int64 (.name "n"))

/-- The integer that a sign and a number make up. -/
def signed (negative : Bool) (n : Nat) : Int := if negative then -n else n

/-- A signed number is a word exactly if the limit permits the number. -/
lemma inRange_signed {negative : Bool} {n : Nat} :
    Word.InRange (signed negative n) ↔ n ≤ limitOf negative := by
  rw [Word.inRange_iff]
  cases negative <;> simp only [signed, limitOf, Bool.false_eq_true, if_true, if_false] <;> omega

variable (size fuel functions stack free) in
/-- A number that the limit permits gets its sign. -/
lemma eval_chooseSign (bytes input : Bytes) (negative : Bool) (limit : Option Nat) {n : Nat}
    (bound : n ≤ limitOf negative) :
    chooseSign.eval (scope size fuel functions)
        (memory stack free (readVars bytes negative limit n) input output diagnostics) =
      .ok (.int .int64 (signed negative n))
        (memory stack free (readVars bytes negative limit n) input output diagnostics) := by
  have fits := CType.convert_of_inRange (inRange_signed.2 bound)
  cases negative with
  | true =>
    have opposite : BinOp.sub.apply (.int .int 0) (.int .uint64 n) =
        some (.int .uint64 (CType.uint64.convert (-n))) := by
      have common : CType.common .int .uint64 = .uint64 := rfl
      have small : n < 2 ^ 64 := Nat.lt_of_le_of_lt bound (by decide)
      rw [BinOp.apply, common, CType.convert_uint64_natCast small, ← Int.zero_sub]
      rfl
    have back : CType.int64.convert (CType.uint64.convert (-n)) = -n := by
      rw [CType.convert_uint64, CType.convert_int64]
      rw [CType.convert_int64] at fits
      exact (Int.emod_bmod _ _).trans fits
    simp [chooseSign, readVars, opposite, back, signed]
  | false =>
    have word : CType.int64.convert n = n := fits
    simp [chooseSign, readVars, word, signed]

/-- There is a word for a signed number exactly if the limit permits the number. -/
lemma exists_ofInt?_signed_iff {negative : Bool} {n : Nat} :
    (∃ w, Word.ofInt? (signed negative n) = some w) ↔ n ≤ limitOf negative := by
  rw [← inRange_signed, ← Option.ne_none_iff_exists', ne_eq, Word.ofInt?_eq_none_iff,
    Decidable.not_not]

variable (size fuel functions stack free) in
/-- The word for the signed number is returned. -/
lemma exec_returnSign (bytes input : Bytes) (negative : Bool) (limit : Option Nat) {n : Nat}
    {w : Word} (word : Word.ofInt? (signed negative n) = some w) :
    (Stmt.return chooseSign).exec (scope size fuel functions) fuel none
        (memory stack free (readVars bytes negative limit n) input output diagnostics) =
      .ok (.return (.int .int64 w.toInt))
        (memory stack free (readVars bytes negative limit n) input output diagnostics) := by
  have value := eval_chooseSign size fuel functions stack free output diagnostics bytes input
    negative limit (exists_ofInt?_signed_iff.1 ⟨w, word⟩)
  rw [Word.ofInt?_eq_some_iff.1 word, Stmt.exec, Eval.bind_run, value]
  rfl

/-- The value of a numeral, as a number behind a sign. -/
lemma value_eq (numeral : Numeral) :
    numeral.value =
      if numeral.digits = [] then .error .expectedInteger
      else
        match Word.ofInt? (signed (numeral.sign = [45]) (spelled 0 numeral.digits)) with
        | some w => .ok w
        | none => .error (.outOfRange numeral.text) := by
  rfl

include getchar in
/-- The declarations read the first byte, and nothing is known of a sign or a limit yet. -/
lemma exec_declarations (input : Bytes) (rest : Stmt) :
    (Stmt.seq .lines (.declare .int [("c", some (.call "getchar" []))])
      (.seq .lines (.declare .int [("negative", some (.num 0))])
        (.seq .lines (.declare .uint64 [("limit", none)])
          (.seq .lines (.declare .uint64 [("n", some (.num 0))])
            (.seq .lines .gap rest))))).exec (scope size fuel functions) fuel none
        (memory stack free [] input output diagnostics) =
      rest.exec (scope size fuel functions) fuel none
        (reading stack free input false none 0 output diagnostics) := by
  have call := callFunction_of_notMem size fuel functions getchar
  have zero : CType.int.convert 0 = 0 := rfl
  have none : CType.uint64.convert 0 = 0 := rfl
  simp [call, zero, none, reading, readVars, Value.ofBool]

/-- Behind the sign there are no more bytes than before. -/
lemma length_splitSign_le (bytes : Bytes) :
    (Numeral.splitSign bytes).2.length ≤ bytes.length := by
  rw [← congrArg List.length (Numeral.splitSign_append bytes), List.length_append]
  omega

/-- There are no digits in front exactly if the first byte is none. -/
lemma takeWhile_isDigit_eq_nil {bytes : Bytes} :
    bytes.takeWhile Numeral.isDigit = [] ↔ ¬ bytes.head?.any Numeral.isDigit := by
  cases bytes with
  | nil => simp
  | cons b bytes => by_cases digit : Numeral.isDigit b <;> simp [digit]

/-- What follows the sign in `read_int`. -/
def readMagnitude : Stmt :=
  .seq .lines requireDigit (.seq .lines .gap (.seq .lines chooseLimit
    (.seq .lines (.while (isDigit "c") takeDigit) (.seq .lines giveBack
      (.seq .lines .gap (.return chooseSign))))))

/-- What follows the declarations of `read_int`. -/
def readNumeral : Stmt :=
  .seq .lines (.while (.call "is_space" [.name "c"]) (nextByte "c"))
    (.seq .lines readSign readMagnitude)

/-- What becomes of reading a numeral: its value is returned, or there is none. -/
def readResult (stack free : List Word) (value : Except InputFault Word) (left : List Variable)
    (rest unread output diagnostics : Bytes) : Result Flow :=
  match value with
  | .ok w => .ok (.return (.int .int64 w.toInt)) (memory stack free left rest output diagnostics)
  | .error _ => failure "invalid input" stack free unread output diagnostics

variable (stack free) in
include getchar fails in
/-- What is returned for a sign and the bytes behind it. -/
lemma exec_readMagnitude (ungetc : "ungetc" ∉ functions.map Function.name) (numeral : Numeral)
    {bytes : Bytes} (digits : numeral.digits = bytes.takeWhile Numeral.isDigit)
    (rest : numeral.rest = bytes.dropWhile Numeral.isDigit) :
    ∃ left unread, Result.Is fuel bytes.length
      (readResult stack free numeral.value left numeral.rest unread output diagnostics)
      (readMagnitude.exec (scope size fuel functions) fuel none
        (reading stack free bytes (numeral.sign = [45]) none 0 output diagnostics)) := by
  have value := value_eq numeral
  generalize decide (numeral.sign = [45]) = negative at *
  have gap (s : State) : Stmt.gap.exec (scope size fuel functions) fuel none s = .ok .next s := rfl
  have check := exec_requireDigit stack free output diagnostics fails bytes negative
  by_cases digit : bytes.head?.any Numeral.isDigit
  · have nonempty : numeral.digits ≠ [] := fun none =>
      takeWhile_isDigit_eq_nil.1 (digits.symm.trans none) digit
    have choose := exec_chooseLimit size fuel functions stack free output diagnostics bytes negative
    have least : 10 ≤ limitOf negative := by cases negative <;> decide
    have most : limitOf negative < 2 ^ 63 + 1 := by cases negative <;> decide
    obtain ⟨unread, loop⟩ := iterate_digits stack free output diagnostics getchar fails negative
      least most bytes 0 (Nat.zero_le _)
    have loop := loop fuel
    rw [if_neg nonempty] at value
    rw [if_pos digit] at check
    rw [← digits, ← rest] at loop
    generalize spelled 0 numeral.digits = n at *
    cases word : Word.ofInt? (signed negative n) with
    | some w =>
      have back := exec_giveBack size fuel stack free output diagnostics ungetc numeral.rest
        negative (some (limitOf negative)) n
      have last := exec_returnSign size fuel functions stack free output diagnostics numeral.rest
        numeral.rest negative (some (limitOf negative)) word
      rw [if_pos (exists_ofInt?_signed_iff.1 ⟨w, word⟩)] at loop
      rw [word] at value
      refine ⟨readVars numeral.rest negative (some (limitOf negative)) n, [], ?_⟩
      rw [value]
      exact .seq (.inl check) (.seq (.inl (gap _)) (.seq (.inl choose) (.seq loop
        (.seq (.inl back) (.seq (.inl (gap _)) (.inl last))))))
    | none =>
      have exceeds : ¬ n ≤ limitOf negative := by
        rw [← exists_ofInt?_signed_iff, word]
        simp
      rw [if_neg exceeds] at loop
      rw [word] at value
      refine ⟨[], unread, ?_⟩
      rw [value]
      exact .seq (.inl check) (.seq (.inl (gap _)) (.seq (.inl choose) (.seq_exit loop)))
  · rw [if_neg digit] at check
    rw [if_pos (digits.trans (takeWhile_isDigit_eq_nil.2 digit))] at value
    refine ⟨[], bytes.tail, ?_⟩
    rw [value]
    exact .seq_exit (.inl check)

variable (stack free) in
include getchar spaces fails in
/-- What a compiled program reads as an integer is the number that stands in front of the input. -/
lemma exec_readInt (ungetc : "ungetc" ∉ functions.map Function.name) (input : Bytes) :
    ∃ left unread, Result.Is fuel input.length
      (readResult stack free (Numeral.split input).value left (Numeral.split input).rest unread
        output diagnostics)
      (readInt.body.exec (scope size fuel functions) fuel none
        (memory stack free [] input output diagnostics)) := by
  have start : readInt.body.exec (scope size fuel functions) fuel none
      (memory stack free [] input output diagnostics) =
      readNumeral.exec (scope size fuel functions) fuel none
        (reading stack free input false none 0 output diagnostics) :=
    exec_declarations output diagnostics getchar input readNumeral
  have blanks := iterate_blanks stack free output diagnostics getchar spaces input fuel
  have signs := exec_readSign size fuel stack free output diagnostics getchar
    (input.dropWhile Numeral.isBlank)
  have shorter : (Numeral.splitSign (input.dropWhile Numeral.isBlank)).2.length ≤ input.length :=
    Nat.le_trans (length_splitSign_le _) (List.dropWhile_sublist _).length_le
  obtain ⟨left, unread, magnitude⟩ := exec_readMagnitude stack free output diagnostics getchar fails
    ungetc (Numeral.split input) rfl rfl
  refine ⟨left, unread, ?_⟩
  rw [start]
  exact .seq blanks (.seq (.inl signs) (magnitude.mono shorter))

variable (functions) in
include getchar spaces fails in
/-- **Reading an integer.** A call of `read_int` has the value of the numeral in front of the input,
or ends the program if there is none. -/
theorem readInt_meaning (ungetc : "ungetc" ∉ functions.map Function.name)
    (locals : List Variable) (input : Bytes) :
    ∃ unread, Result.Is fuel input.length
      (match (Numeral.split input).value with
        | .ok w => .ok (.int .int64 w.toInt)
          (memory stack free locals (Numeral.split input).rest output diagnostics)
        | .error _ => failure "invalid input" stack free unread output diagnostics)
      (readInt.meaning (scope size fuel functions) fuel []
        (memory stack free locals input output diagnostics)) := by
  obtain ⟨left, unread, body⟩ := exec_readInt stack free output diagnostics getchar spaces fails
    ungetc input
  refine ⟨unread, ?_⟩
  cases value : (Numeral.split input).value with
  | ok w =>
    rw [value] at body
    refine meaning_of_return rfl body ?_
    exact (Value.convert?_int_int64 _ _).trans (by rw [CType.convert_toInt])
  | error fault =>
    rw [value] at body
    exact meaning_of_exit rfl body

end Read

end StackAsm.Compiler
