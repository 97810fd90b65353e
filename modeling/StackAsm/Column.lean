import StackAsm.Decimal

set_option autoImplicit false

/-!
# Columns of tables

Listings and tables of tokens set their fields in columns. A field narrower than its column is
filled up; a wider one is left as it is and pushes the rest of its line to the right.

## Main definitions

* `StackAsm.Column.padRight` — a text, filled with spaces on its right.
* `StackAsm.Column.padZero` — an integer, filled with zeros between its sign and its digits.

## Main results

* `StackAsm.Column.length_padRight`, `StackAsm.Column.length_padZero` — a field takes the width of
  its column or its own, whichever is greater.
-/

namespace StackAsm.Column

/-- A text with spaces after it, so many that the whole has at least `width` characters. -/
def padRight (width : Nat) (text : String) : String :=
  text ++ String.ofList (List.replicate (width - text.length) ' ')

/-- The sign of an integer as it stands before its digits. -/
def sign (n : Int) : String := if n < 0 then "-" else ""

/-- The decimal text of `n` with zeros between its sign and its digits, so many that the whole has
at least `width` characters. -/
def padZero (width : Nat) (n : Int) : String :=
  sign n ++ String.ofList (List.replicate (width - (Decimal.text n).length) '0')
    ++ n.natAbs.repr

/-- A numeral is its sign followed by the digits of its absolute value. -/
theorem text_eq_sign_append (n : Int) : Decimal.text n = sign n ++ n.natAbs.repr := by
  unfold Decimal.text sign
  split <;> simp

/-- Padding on the right fills a text to the width, and leaves a longer text as long as it is. -/
theorem length_padRight (width : Nat) (text : String) :
    (padRight width text).length = max width text.length := by
  simp only [padRight, String.length_append, String.length_ofList, List.length_replicate]
  omega

/-- Padding with zeros fills a numeral to the width, its sign counted in. -/
theorem length_padZero (width : Nat) (n : Int) :
    (padZero width n).length = max width (Decimal.text n).length := by
  simp only [padZero, text_eq_sign_append, String.length_append, String.length_ofList,
    List.length_replicate]
  omega

end StackAsm.Column
