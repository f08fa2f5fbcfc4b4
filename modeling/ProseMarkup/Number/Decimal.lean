import ProseMarkup.Text.Basic

/-!
# Decimal notation

Integers are shown in decimal. A binary64 number is carried as its *literal*: the shortest decimal
text that reads back as that number, `inf` or `-inf`. Two different numbers have different literals,
so literals are compared instead of numbers.

* `Decimal.ofInt` : the digits of an integer, after a sign if it is negative.
* `Decimal.nearestBinary64` : the natural number with a 53 bit significand nearest to a given one.
* `Decimal.integer?` : the integer that a literal stands for, if it stands for one.
* `Decimal.equal` : whether two literals stand for equal numbers.
* `Decimal.Scaled`, `Decimal.scaled` : the number a literal stands for, as a scaled integer.
-/

namespace ProseMarkup.Decimal

/-- The digits of an integer, after a sign if it is negative. -/
def ofInt : Int → Text
  | .ofNat n => Nat.toDigits 10 n
  | .negSucc n => '-' :: Nat.toDigits 10 (n + 1)

/-- The natural number that a run of digits stands for. -/
def ofDigits (s : Text) : Nat :=
  s.foldl (fun n c => 10 * n + (c.toNat - '0'.toNat)) 0

/-- The natural number with a significand of 53 bits that is nearest to `n`; of two, the one whose
significand is even. -/
def nearestBinary64 (n : Nat) : Nat :=
  if n < 1 <<< 53 then n
  else
    let shift := n.log2 - 52
    let significand := n >>> shift
    let tail := n % (1 <<< shift)
    let half := 1 <<< (shift - 1)
    let roundsUp := half < tail || (tail = half && significand % 2 = 1)
    (if roundsUp then significand + 1 else significand) <<< shift

/-- The magnitude of a literal without sign: its digits, and the power of ten that scales them. -/
def scaledDigits (s : Text) : Nat × Int :=
  let whole := s.takeWhile Char.isDigit
  let afterWhole := s.dropWhile Char.isDigit
  let fraction := if afterWhole.head? = some '.' then afterWhole.tail.takeWhile Char.isDigit else []
  let scale := (s.dropWhile (· ≠ 'e')).tail
  let magnitude := ofDigits (scale.filter Char.isDigit)
  let exponent : Int := if scale.head? = some '-' then -(magnitude : Int) else magnitude
  (ofDigits (whole ++ fraction), exponent - fraction.length)

/-- The integer that a literal stands for, if it stands for one. -/
def integer? (literal : Text) : Option Int :=
  let negative := literal.head? = some '-'
  let s := if negative then literal.tail else literal
  if s.head?.any Char.isDigit then
    let (digits, exponent) := scaledDigits s
    let divisor := Nat.pow 10 (-exponent).toNat
    if digits % divisor = 0 then
      let n := nearestBinary64 (digits / divisor * Nat.pow 10 exponent.toNat)
      some (if negative then -(n : Int) else n)
    else none
  else none

/-- What is shown for the result of an undefined operation. -/
def nan : Text := "nan".toList

/-- Two literals stand for equal numbers if they are the same, or both stand for zero. -/
def equal (s t : Text) : Bool :=
  s == t || (integer? s == some 0 && integer? t == some 0)

/-! ### Order -/

/-- A number: an integer times a power of ten, or, with a rank other than zero, one that is less or
greater than all those. -/
structure Scaled where
  rank : Int
  digits : Int
  exponent : Int
deriving DecidableEq, Repr

/-- An integer as a scaled integer. -/
def Scaled.ofInt (n : Int) : Scaled := ⟨0, n, 0⟩

/-- Whether a number is at most another one. -/
def Scaled.le (a b : Scaled) : Bool :=
  let low := min a.exponent b.exponent
  let lift (s : Scaled) : Int := s.digits * Nat.pow 10 (s.exponent - low).toNat
  if a.rank = b.rank then lift a ≤ lift b else a.rank < b.rank

/-- The number that a literal stands for. One that is no integer is nearer to its literal than to any
other number with a literal, so its order among them is that of the literals. -/
def scaled (literal : Text) : Scaled :=
  match integer? literal with
  | some n => .ofInt n
  | none =>
    let negative := literal.head? = some '-'
    let sign : Int := if negative then -1 else 1
    let s := if negative then literal.tail else literal
    if s.head?.any Char.isDigit then
      let (digits, exponent) := scaledDigits s
      ⟨0, sign * digits, exponent⟩
    else ⟨sign, 0, 0⟩

end ProseMarkup.Decimal
