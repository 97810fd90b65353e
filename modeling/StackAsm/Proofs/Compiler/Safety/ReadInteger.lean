import StackAsm.Proofs.Compiler.ReadInteger
import StackAsm.Proofs.Compiler.Safety.Limit

set_option autoImplicit false

/-!
# Reading an integer is safe

While a compiled program reads an integer, the number so far is at most the limit that the sign
sets. So what is left for another digit is not negative, and a digit that passes the test keeps the
number within the limit: no operation on unsigned numbers wraps, although C would let it. That the
number stays within its limit and that the test is exact is proved along with the safety, in one
walk through the function.

## Main definitions

* `StackAsm.Compiler.Reads` — the states in which an integer is being read.

## Main results

* `StackAsm.Compiler.ensures_takeDigit` — one digit.
* `StackAsm.Compiler.ensures_readInt` — a whole integer.
-/

namespace StackAsm.Compiler

open C

/-! ## Tests without effects -/

/-- The comparison of a character with a constant is plain. -/
lemma plain_compare {op : BinOp} (free : op.wraps = false) (c : String) (x : Char) :
    Plain (.bin op (.name c) (.char x)) :=
  .bin (.inl free) (.name c) (.char x)

/-- The test for several characters is plain. -/
lemma plain_isOneOf (c : String) (cs : List Char) : Plain (isOneOf c cs) := by
  cases cs with
  | nil => exact .num 0
  | cons first more =>
    have many : ∀ {e : Expr}, Plain e →
        Plain (more.foldl (fun e x => .bin .or e (.bin .eq (.name c) (.char x))) e) := by
      induction more with
      | nil => exact id
      | cons x more ih => exact fun plain => ih (.bin (.inl rfl) plain (plain_compare rfl c x))
    exact many (plain_compare rfl c first)

/-- The test for a digit is plain. -/
lemma plain_isDigit (c : String) : Plain (isDigit c) :=
  .bin (.inl rfl) (plain_compare rfl ..) (plain_compare rfl ..)

/-- A value is a truth value. -/
def HoldsTruth (v : Value) : Prop := ∃ p : Bool, v = .ofBool p

/-- A truth value is one. -/
@[simp] lemma holdsTruth_ofBool (p : Bool) : HoldsTruth (.ofBool p) := ⟨p, rfl⟩

/-- An operation on unsigned numbers whose result does not wrap is permitted. -/
lemma permitted_unsigned {e : Expr} {op : BinOp} {t : CType} {m n k : Nat} {s : State}
    (other : op ≠ .div) (type : t = .int ∨ t = .uint64) (left : m < 2 ^ 64) (right : n < 2 ^ 64)
    (result : op.onIntegers? m n = some (k : Int)) (fits : k < 2 ^ 64) :
    Permitted s (.apply e op (.int .uint64 m) (.int t n)) := by
  have common : CType.common .uint64 t = .uint64 := by rcases type with rfl | rfl <;> rfl
  refine permitted_of_exact other ?_
  rw [common, CType.convert_uint64_natCast left, CType.convert_uint64_natCast right]
  intro r same
  rw [result] at same
  cases same
  exact CType.convert_uint64_natCast fits

section Read

variable {size fuel : Nat} {functions : List Function} {stack free : List Word}
  (output diagnostics : Bytes) (fits : Fits size stack free)
  (getchar : "getchar" ∉ functions.map Function.name)

/-- An integer is being read. -/
def Reads (stack free : List Word) (negative : Bool) (limit : Option Nat) (n : Nat) (s : State) :
    Prop :=
  ∃ bytes output diagnostics, s = reading stack free bytes negative limit n output diagnostics

/-- The state while an integer is read is one in which an integer is being read. -/
@[simp] lemma reads_reading (stack free : List Word) (bytes : Bytes) (negative : Bool)
    (limit : Option Nat) (n : Nat) (output diagnostics : Bytes) :
    Reads stack free negative limit n
      (reading stack free bytes negative limit n output diagnostics) :=
  ⟨_, _, _, rfl⟩

/-- While an integer is read, one may arrive at a state whose stack fits and whose number keeps to
the limit. -/
lemma careful_reading {bytes : Bytes} {negative : Bool} {limit : Option Nat} {n : Nat} :
    Careful size ⟨reading stack free bytes negative limit n output diagnostics, .arrive⟩ ↔
      Fits size stack free ∧ ∀ l ∈ limit, n ≤ l := by
  simp [reading, readVars]

include fits getchar in
/-- To read the next byte keeps to the limit. -/
lemma ensures_nextByte (bytes : Bytes) (negative : Bool) {limit : Option Nat} {n : Nat}
    (bound : ∀ l ∈ limit, n ≤ l) :
    ((nextByte "c").watch (watchedScope size fuel functions) fuel none).Ensures (Careful size)
      (reading stack free bytes negative limit n output diagnostics) fun flow after =>
        flow = .next ∧
          after = reading stack free bytes.tail negative limit n output diagnostics := by
  have call := watchedCall_of_notMem size fuel functions getchar
  simpa [nextByte, reading, readVars, call, fits, Result.state?] using bound

omit fits in
/-- The function that looks for blank space leaves all as it is, and returns a truth value. -/
lemma ensures_isSpace {locals : List Variable} (bytes : Bytes) {input : Bytes}
    (caller : Careful size ⟨memory stack free locals input output diagnostics, .arrive⟩) :
    (isSpace.watch (watchedScope size fuel functions) fuel [.int .int (front bytes)]).Ensures
      (Careful size) (memory stack free locals input output diagnostics) fun r after =>
        HoldsTruth r ∧ after = memory stack free locals input output diagnostics := by
  let vars : List Variable := [⟨"c", .int, some (.int .int (front bytes))⟩]
  have read : readName (watchedScope size fuel functions).erase "c"
      (memory stack free vars input output diagnostics) =
      .ok (.int .int (front bytes)) (memory stack free vars input output diagnostics) := by
    simp [vars]
  obtain ⟨⟨fits, -⟩, within⟩ := careful_memory.1 caller
  have start : Careful size ⟨memory stack free vars input output diagnostics, .arrive⟩ := by
    simp [vars, fits]
  have test := (plain_isOneOf "c" [' ', '\t', '\n', '\r', '\x0b', '\x0c']).careful start
    (eval_isOneOf read (front_small bytes) _)
  have kept := (withinLimit_memory.1 within).1
  simp [Function.watch, isSpace, fits, Result.state?]
  refine test.mono ?_
  rintro _ _ ⟨rfl, rfl⟩
  simpa [fits, -List.any_cons] using kept

variable {before : List Function} (spaces : Watched.callFunction (watchedScope size fuel functions)
  "is_space" = isSpace.watch (watchedScope size fuel before) fuel)

include fits getchar spaces in
/-- The loop that reads blanks. -/
lemma ensures_blanks (bytes : Bytes) :
    ((Stmt.while (.call "is_space" [.name "c"]) (nextByte "c")).watch
        (watchedScope size fuel functions) fuel none).Ensures (Careful size)
      (reading stack free bytes false none 0 output diagnostics) fun flow after =>
        flow = .next ∧ Reads stack free false none 0 after := by
  rw [Stmt.ensures_while]
  refine Watched.ensures_iterate (Reads stack free false none 0) ?_ fuel (reads_reading ..)
  rintro _ ⟨bytes, output, diagnostics, rfl⟩
  simp only [Expr.ensures_watchTest, Expr.ensures_call, Expr.ensures_cons, Expr.ensures_name,
    Expr.ensures_nil, readName_reading, Result.meets_ok, spaces]
  refine (ensures_isSpace output diagnostics bytes
    ((careful_reading _ _).2 ⟨fits, by simp⟩)).mono ?_
  rintro _ _ ⟨⟨p, rfl⟩, rfl⟩
  rw [Value.truth?_ofBool, Eval.ofOption_some, Result.meets_ok]
  cases p with
  | false =>
    rw [if_neg Bool.false_ne_true]
    exact ⟨trivial, reads_reading ..⟩
  | true =>
    refine (ensures_nextByte output diagnostics fits getchar bytes false (by simp)).mono ?_
    rintro _ _ ⟨rfl, rfl⟩
    exact Watched.ensures_pure.2 (reads_reading ..)

include fits getchar in
/-- To read a sign leaves the number and the limit as they are. -/
lemma ensures_readSign (bytes : Bytes) :
    (readSign.watch (watchedScope size fuel functions) fuel none).Ensures (Careful size)
      (reading stack free bytes false none 0 output diagnostics) fun flow after =>
        flow = .next ∧ ∃ negative, Reads stack free negative none 0 after := by
  have call := watchedCall_of_notMem size fuel functions getchar
  refine (plain_isOneOf "c" ['-', '+']).careful_ifThen ((careful_reading _ _).2 ⟨fits, by simp⟩)
    (eval_isOneOf (readName_reading ..) (front_small bytes) _) ?_
  split
  · have minus : BinOp.eq.apply (.int .int (front bytes)) (.int .int 45) =
        some (.ofBool (front bytes = 45)) := by
      rw [BinOp.apply_ints (front_small _) (by decide), BinOp.onCommon]
    simp [reading, nextByte, readVars, call, minus, fits, Result.state?, -Bool.exists_bool]
    exact ⟨_, reads_reading _ _ bytes.tail _ _ _ _ _⟩
  · exact ⟨rfl, false, reads_reading ..⟩

variable (fails : Watched.callFunction (watchedScope size fuel functions) "fail" =
  fail.watch (watchedScope size fuel []) fuel)

include fails fits in
/-- A statement that fails keeps to the limit, and nothing follows it. -/
lemma careful_failWith (locals : List Variable) (input output diagnostics : Bytes)
    (message : String) (post : Flow → State → Prop) :
    ((failWith message).watch (watchedScope size fuel functions) fuel none).Ensures (Careful size)
      (memory stack free locals input output diagnostics) post := by
  have library {x : String} := watchedCall_of_notMem size fuel [] (x := x) (by simp)
  simp only [failWith, Stmt.ensures_expr, Expr.ensures_call, Expr.ensures_cons, Expr.ensures_str,
    Expr.ensures_nil, fails]
  simp [Function.watch, fail, library, Result.state?, fits]

include fits fails in
/-- To require a digit leaves the number and the limit as they are. -/
lemma ensures_requireDigit (bytes : Bytes) (negative : Bool) :
    (requireDigit.watch (watchedScope size fuel functions) fuel none).Ensures (Careful size)
      (reading stack free bytes negative none 0 output diagnostics) fun flow after =>
        flow = .next ∧ Reads stack free negative none 0 after := by
  have compare {op : BinOp} (strict : op ≠ .and ∧ op ≠ .or) (x : Char) :=
    eval_compare (readName_reading output diagnostics (watchedScope size fuel functions).erase stack
      free bytes negative none 0) (front_small bytes) strict x
  have test := Expr.eval_or (@compare .lt (by decide) '0') (@compare .gt (by decide) '9')
  refine Plain.careful_ifThen (.bin (.inl rfl) (plain_compare rfl ..) (plain_compare rfl ..))
    ((careful_reading _ _).2 ⟨fits, by simp⟩) test ?_
  split
  · exact careful_failWith fits fails _ _ _ _ _ _
  · exact ⟨rfl, reads_reading ..⟩

include fits in
/-- To choose the limit sets it by the sign. -/
lemma ensures_chooseLimit (bytes : Bytes) (negative : Bool) :
    (chooseLimit.watch (watchedScope size fuel functions) fuel none).Ensures (Careful size)
      (reading stack free bytes negative none 0 output diagnostics) fun flow after =>
        flow = .next ∧ Reads stack free negative (some (limitOf negative)) 0 after := by
  obtain ⟨most, more, sum⟩ := unsigned_limits
  have exact (s : State) (e : Expr) :
      Permitted s (.apply e .add (.int .uint64 9223372036854775807) (.int .int 1)) :=
    permitted_unsigned (m := 9223372036854775807) (n := 1) (k := 9223372036854775808) (by decide)
      (.inl rfl) (by decide) (by decide) rfl (by decide)
  cases negative with
  | true =>
    simp [chooseLimit, reading, readVars, limitOf, Int64.toInt_maxValue, most, sum, more, exact,
      fits, Result.state?]
    exact ⟨⟨2 ^ 63, rfl, 0, rfl, Nat.zero_le _⟩,
      reads_reading _ _ bytes true (some (2 ^ 63)) 0 output diagnostics⟩
  | false =>
    simp [chooseLimit, reading, readVars, limitOf, Int64.toInt_maxValue, most, fits, Result.state?]
    exact ⟨⟨2 ^ 63 - 1, rfl, 0, rfl, Nat.zero_le _⟩,
      reads_reading _ _ bytes false (some (2 ^ 63 - 1)) 0 output diagnostics⟩

/-! ## Digits -/

/-- What a limit leaves for a number in front of a digit is not negative. -/
lemma permitted_limit (s : State) (e : Expr) {limit d : Nat} (most : limit < 2 ^ 64)
    (bound : d ≤ limit) : Permitted s (.apply e .sub (.int .uint64 limit) (.int .uint64 d)) := by
  refine permitted_unsigned (k := limit - d) (by decide) (.inr rfl) most (by omega) ?_ (by omega)
  rw [Int.natCast_sub bound]
  rfl

/-- Neither the product nor the sum that put a digit behind a number wraps. -/
lemma permitted_digit (s : State) (e : Expr) {n d : Nat} (bound : 10 * n + d < 2 ^ 64) :
    Permitted s (.apply e .mul (.int .uint64 n) (.int .int 10)) ∧
      Permitted s (.apply e .add (.int .uint64 (10 * n : Nat)) (.int .uint64 d)) := by
  constructor
  · refine permitted_unsigned (n := 10) (k := n * 10) (by decide) (.inl rfl) (by omega) (by decide)
      ?_ (by omega)
    rw [Int.natCast_mul]
    rfl
  · refine permitted_unsigned (k := 10 * n + d) (by decide) (.inr rfl) (by omega) (by omega) ?_
      bound
    rw [Int.natCast_add]
    rfl

variable (size fuel stack free) in
include fits getchar fails in
/-- **A digit does not make the number wrap.** The number stays within the limit, or the program
ends. -/
theorem ensures_takeDigit {b : UInt8} (digit : Numeral.isDigit b) (bytes : Bytes) (negative : Bool)
    {limit n : Nat} (least : 10 ≤ limit) (most : limit < 2 ^ 63 + 1) (bound : n ≤ limit) :
    (takeDigit.watch (watchedScope size fuel functions) fuel none).Ensures (Careful size)
      (reading stack free (b :: bytes) negative (some limit) n output diagnostics) fun flow after =>
        flow = .next ∧ ∃ more ≤ limit, Reads stack free negative (some limit) more after := by
  have call := watchedCall_of_notMem size fuel functions getchar
  obtain ⟨small, value⟩ := sub_digit digit bytes
  have kept : CType.uint64.convert (digitValue b) = digitValue b :=
    CType.convert_uint64_natCast (by omega)
  obtain ⟨room, tenth, test⟩ := compare_limit (by omega) small least bound
  have exact₀ (s : State) (e : Expr) :
      Permitted s (.apply e .sub (.int .int (front (b :: bytes))) (.int .int 48)) :=
    permitted_of_signed value rfl
  have exact₁ (s : State) (e : Expr) :=
    permitted_limit s e (show limit < 2 ^ 64 by omega) (show digitValue b ≤ limit by omega)
  -- The test divides, since a product might wrap; this is what it decides.
  by_cases accepted : 10 * n + digitValue b ≤ limit
  · have unwrapped : 10 * n + digitValue b < 2 ^ 64 := by omega
    obtain ⟨product, sum⟩ := append_digit unwrapped
    have exact₂ (s : State) (e : Expr) := (permitted_digit s e unwrapped).1
    have exact₃ (s : State) (e : Expr) := (permitted_digit s e unwrapped).2
    have total : CType.uint64.convert (10 * n + digitValue b : Nat) =
        (10 * n + digitValue b : Nat) := CType.convert_uint64_natCast unwrapped
    have within : ¬ limit < n * 10 + digitValue b := by omega
    rw [decide_eq_false (by omega)] at test
    generalize (limit - digitValue b) / 10 = tenths at *
    generalize limit - digitValue b = left at *
    generalize 10 * n + digitValue b = result at *
    generalize 10 * n = shifted at *
    simp [takeDigit, reading, readVars, value, kept, room, tenth, test, product, sum, total,
      nextByte, call, exact₀, exact₁, exact₂, exact₃, fits, bound, within, Result.state?]
    exact ⟨accepted, result, accepted, reads_reading ..⟩
  · have beyond : limit < n * 10 + digitValue b := by omega
    rw [decide_eq_true (by omega)] at test
    generalize (limit - digitValue b) / 10 = tenths at *
    generalize limit - digitValue b = left at *
    simp [takeDigit, reading, readVars, value, kept, room, tenth, test, careful_failWith fits fails,
      exact₀, exact₁, fits, bound, beyond, Result.state?]

include fits getchar fails in
/-- The loop that reads digits. -/
lemma ensures_digits (bytes : Bytes) (negative : Bool) {limit : Nat} (least : 10 ≤ limit)
    (most : limit < 2 ^ 63 + 1) :
    ((Stmt.while (isDigit "c") takeDigit).watch (watchedScope size fuel functions) fuel
        none).Ensures (Careful size)
      (reading stack free bytes negative (some limit) 0 output diagnostics) fun flow after =>
        flow = .next ∧ ∃ n ≤ limit, Reads stack free negative (some limit) n after := by
  rw [Stmt.ensures_while]
  refine Watched.ensures_iterate (fun s => ∃ n ≤ limit, Reads stack free negative (some limit) n s)
    ?_ fuel ⟨0, Nat.zero_le _, reads_reading ..⟩
  rintro _ ⟨n, bound, bytes, output, diagnostics, rfl⟩
  have value := eval_isDigit (readName_reading output diagnostics
    (watchedScope size fuel functions).erase stack free bytes negative (some limit) n)
    (front_small bytes)
  rw [front_digit] at value
  rw [Expr.ensures_watchTest]
  refine ((plain_isDigit "c").careful ((careful_reading _ _).2 ⟨fits, by simpa⟩) value).mono ?_
  rintro _ _ ⟨rfl, rfl⟩
  rw [Value.truth?_ofBool, Eval.ofOption_some, Result.meets_ok]
  cases bytes with
  | nil => exact ⟨rfl, n, bound, reads_reading ..⟩
  | cons b bytes =>
    rw [List.head?_cons, Option.any_some]
    by_cases digit : Numeral.isDigit b
    · rw [if_pos digit]
      refine (ensures_takeDigit size fuel stack free output diagnostics fits getchar fails digit
        bytes negative least most bound).mono ?_
      rintro _ _ ⟨rfl, more⟩
      exact Watched.ensures_pure.2 more
    · rw [if_neg digit]
      exact ⟨rfl, n, bound, reads_reading ..⟩

/-! ## The whole function -/

include fits in
/-- To give a byte back leaves the number within the limit. -/
lemma ensures_giveBack (ungetc : "ungetc" ∉ functions.map Function.name) (bytes : Bytes)
    (negative : Bool) {limit : Option Nat} {n : Nat} (bound : ∀ l ∈ limit, n ≤ l) :
    (giveBack.watch (watchedScope size fuel functions) fuel none).Ensures (Careful size)
      (reading stack free bytes negative limit n output diagnostics) fun flow after =>
        flow = .next ∧
          after = memory stack free (readVars bytes negative limit n) bytes output diagnostics := by
  have call := watchedCall_of_notMem size fuel functions ungetc
  have test : BinOp.ne.apply (.int .int (front bytes)) (.int .int (-1)) =
      some (.ofBool (front bytes ≠ -1)) := by
    rw [BinOp.apply_ints (front_small bytes) (by decide), BinOp.onCommon]
  cases bytes with
  | nil =>
    have last : ¬ (front [] ≠ -1) := not_not_intro rfl
    rw [decide_eq_false last] at test
    simpa [giveBack, reading, readVars, test, fits] using bound
  | cons b bytes =>
    have byte : byteOf (front (b :: bytes)) = b := by
      have := b.toNat_lt
      rw [byteOf, front, ← UInt8.toNat_inj, UInt8.toNat_ofNat']
      omega
    have more : front (b :: bytes) ≠ -1 := by
      simp only [front]
      omega
    rw [decide_eq_true more] at test
    simpa [giveBack, reading, readVars, test, call, byte, fits, Result.state?] using bound

/-- The choice of the sign is plain. -/
lemma plain_chooseSign : Plain chooseSign :=
  .cond (.name _) (.cast _ (.bin (.inr (by simp [wrappingOperations])) (.num 0) (.name _)))
    (.cast _ (.name _))

include fits in
/-- A number within the limit is returned as a word. -/
lemma ensures_returnSign (bytes input : Bytes) {negative : Bool} {n : Nat}
    (bound : n ≤ limitOf negative) :
    ((Stmt.return chooseSign).watch (watchedScope size fuel functions) fuel none).Ensures
      (Careful size)
      (memory stack free (readVars bytes negative (some (limitOf negative)) n) input output
        diagnostics) fun flow after =>
          ∃ v, flow = .return v ∧ HoldsWord v ∧ ∃ left, Stores stack free left after := by
  have value := eval_chooseSign size fuel functions stack free output diagnostics bytes input
    negative (some (limitOf negative)) bound
  rw [← erase_watchedScope] at value
  rw [Stmt.ensures_return]
  have careful : Careful size ⟨memory stack free (readVars bytes negative
      (some (limitOf negative)) n) input output diagnostics, .arrive⟩ := by
    simpa [readVars, fits] using bound
  refine (plain_chooseSign.careful careful value).mono ?_
  rintro _ _ ⟨rfl, rfl⟩
  have word : Int64.toInt (Int64.ofInt (signed negative n)) = signed negative n :=
    CType.convert_of_inRange (inRange_signed.2 bound)
  exact ⟨_, rfl, ⟨Int64.ofInt (signed negative n), by rw [word]⟩, _, stores_memory ..⟩

include fits getchar fails in
/-- To read what follows the sign keeps to the limit, and returns a word. -/
lemma ensures_readMagnitude (ungetc : "ungetc" ∉ functions.map Function.name) (bytes : Bytes)
    (negative : Bool) :
    (readMagnitude.watch (watchedScope size fuel functions) fuel none).Ensures (Careful size)
      (reading stack free bytes negative none 0 output diagnostics) fun flow after =>
        ∃ v, flow = .return v ∧ HoldsWord v ∧ ∃ left, Stores stack free left after := by
  have least : 10 ≤ limitOf negative := by cases negative <;> decide
  have most : limitOf negative < 2 ^ 63 + 1 := by cases negative <;> decide
  refine Stmt.ensures_seq_of_next
    (ensures_requireDigit output diagnostics fits fails bytes negative) ?_
  rintro _ ⟨bytes, output, diagnostics, rfl⟩
  refine Stmt.ensures_seq_of_next (Stmt.ensures_gap.2 ⟨rfl, rfl⟩) ?_
  rintro _ rfl
  refine Stmt.ensures_seq_of_next (ensures_chooseLimit output diagnostics fits bytes negative) ?_
  rintro _ ⟨bytes, output, diagnostics, rfl⟩
  refine Stmt.ensures_seq_of_next
    (ensures_digits output diagnostics fits getchar fails bytes negative least most) ?_
  rintro _ ⟨n, bound, bytes, output, diagnostics, rfl⟩
  refine Stmt.ensures_seq_of_next
    (ensures_giveBack output diagnostics fits ungetc bytes negative (by simpa)) ?_
  rintro _ rfl
  refine Stmt.ensures_seq_of_next (Stmt.ensures_gap.2 ⟨rfl, rfl⟩) ?_
  rintro _ rfl
  exact ensures_returnSign output diagnostics fits bytes bytes bound

include fits getchar fails spaces in
/-- To read a numeral keeps to the limit, and returns a word. -/
lemma ensures_readNumeral (ungetc : "ungetc" ∉ functions.map Function.name) (bytes : Bytes) :
    (readNumeral.watch (watchedScope size fuel functions) fuel none).Ensures (Careful size)
      (reading stack free bytes false none 0 output diagnostics) fun flow after =>
        ∃ v, flow = .return v ∧ HoldsWord v ∧ ∃ left, Stores stack free left after := by
  refine Stmt.ensures_seq_of_next (ensures_blanks output diagnostics fits getchar spaces bytes) ?_
  rintro _ ⟨bytes, output, diagnostics, rfl⟩
  refine Stmt.ensures_seq_of_next (ensures_readSign output diagnostics fits getchar bytes) ?_
  rintro _ ⟨negative, bytes, output, diagnostics, rfl⟩
  exact ensures_readMagnitude output diagnostics fits getchar fails ungetc bytes negative

variable (functions) in
include fits getchar fails spaces in
/-- **Reading an integer is safe.** A call of `read_int` returns a word, or ends the program. What
it does is careful, up to the point where it is back in the function that called it. -/
theorem ensures_readInt {allowed : Event → Prop} (careful : ∀ e, Careful size e → allowed e)
    (ungetc : "ungetc" ∉ functions.map Function.name) {locals : List Variable}
    (back : ∀ input output diagnostics,
      allowed ⟨memory stack free locals input output diagnostics, .arrive⟩) (input : Bytes) :
    (readInt.watch (watchedScope size fuel functions) fuel []).Ensures allowed
      (memory stack free locals input output diagnostics) fun r after =>
        HoldsWord r ∧ Stores stack free locals after := by
  have call := watchedCall_of_notMem size fuel functions getchar
  have zero : CType.int.convert 0 = 0 := rfl
  have none : CType.uint64.convert 0 = 0 := rfl
  have body : (readInt.body.watch (watchedScope size fuel functions) fuel .none).Ensures
      (Careful size) (memory stack free [] input output diagnostics) fun flow after =>
        ∃ v, flow = .return v ∧ HoldsWord v ∧ ∃ left, Stores stack free left after := by
    show ((Stmt.seq .lines (.declare .int [("c", some (.call "getchar" []))])
      (.seq .lines (.declare .int [("negative", some (.num 0))])
        (.seq .lines (.declare .uint64 [("limit", .none)])
          (.seq .lines (.declare .uint64 [("n", some (.num 0))])
            (.seq .lines .gap readNumeral))))).watch
        (watchedScope size fuel functions) fuel .none).Ensures _ _ _
    simp [call, zero, none, fits, Result.state?]
    exact ensures_readNumeral output diagnostics fits getchar spaces fails ungetc input
  have given : parameters? readInt.params [] = some [] := rfl
  have entered := careful ⟨memory stack free [] input output diagnostics, .arrive⟩ (by simp [fits])
  rw [Function.watch]
  simp only [given, Watched.ensures_bind, Watched.ensures_quiet, Eval.ofOption_some,
    Result.meets_ok, Eval.get_apply, Watched.ensures_lift, modify_locals]
  refine ⟨?_, (body.weaken careful).mono ?_⟩
  · simpa [Result.state?] using entered
  · rintro _ _ ⟨v, rfl, ⟨w, rfl⟩, left, input, output, diagnostics, rfl⟩
    simp [Result.state?, back, readInt]

end Read

end StackAsm.Compiler
