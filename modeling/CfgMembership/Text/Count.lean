/-
Counts as a description or a query list writes them: decimal digits, with at most one plus sign before them, for a number
below `countLimit`.
-/
namespace CfgMembership.Text

/-- counts are 64 bits wide -/
def countLimit : Nat := 18446744073709551616

/-- the number that decimal digits write -/
def digitsValue (digits : List Char) : Nat :=
  digits.foldl (fun value c => 10 * value + (c.toNat - '0'.toNat)) 0

/-- the number of a digit sequence: not empty, digits only, below the limit -/
def digits? (digits : List Char) : Option Nat :=
  if digits.isEmpty || !digits.all Char.isDigit then none
  else
    let value := digitsValue digits
    if value < countLimit then some value else none

/-- the count that a word writes -/
def count? (word : List Char) : Option Nat :=
  match word with
  | '+' :: digits => digits? digits
  | digits => digits? digits

end CfgMembership.Text
