import LocalizedKeys.Text.DecimalDigit

/-!
# Numbers as text

Numbers are read and written in decimal digits, but only so many of them. A number with more digits
than `maxDigits` has no text, and what would name it in a message cannot be said. A number that is
read from as many digits as are converted can be written again (`isWritable_decimalNumber`).
-/

namespace LocalizedKeys.Text

/-- The most digits that are converted to a number, or that a number is converted to. -/
@[irreducible]
def maxDigits : Nat := 4300

/-- Why a number has no text. -/
inductive NumberError where
  | tooLong
deriving DecidableEq, Repr

/-- What is reported about a number without a text. -/
def NumberError.message : NumberError → String
  | tooLong =>
    s!"Exceeds the limit ({maxDigits} digits) for integer string conversion; "
      ++ "use sys.set_int_max_str_digits() to increase the limit"

/-- The least number with too many digits. -/
def leastTooLong : Nat := Nat.pow 10 maxDigits

/-- The number has at most as many digits as are written. -/
def IsWritable (n : Int) : Prop := n.natAbs < leastTooLong

instance (n : Int) : Decidable (IsWritable n) := inferInstanceAs (Decidable (_ < _))

/-- The number in decimal digits, with a sign if it is negative. -/
def decimalText (n : Int) : Except NumberError String :=
  if IsWritable n then .ok (toString n) else .error .tooLong

theorem decimalText_of_isWritable {n : Int} (h : IsWritable n) :
    decimalText n = .ok (toString n) := if_pos h

theorem decimalText_of_not_isWritable {n : Int} (h : ¬IsWritable n) :
    decimalText n = .error .tooLong := if_neg h

/-- Smaller numbers than one that can be written can be written. -/
theorem IsWritable.of_le {m n : Int} (h : IsWritable n) (hm : 0 ≤ m) (hmn : m ≤ n) :
    IsWritable m := by
  unfold IsWritable at *
  omega

theorem foldl_decimalValue_lt (n : Nat) (digits : List Char) :
    digits.foldl (fun n c => 10 * n + (decimalValue? c).getD 0) n
      < (n + 1) * Nat.pow 10 digits.length := by
  induction digits generalizing n with
  | nil => simp
  | cons c rest ih =>
    have hvalue : (decimalValue? c).getD 0 < 10 := by
      cases hc : decimalValue? c with
      | none => decide
      | some value => exact decimalValue?_lt hc
    calc (c :: rest).foldl (fun n c => 10 * n + (decimalValue? c).getD 0) n
        < (10 * n + (decimalValue? c).getD 0 + 1) * Nat.pow 10 rest.length := ih _
      _ ≤ (n + 1) * 10 * Nat.pow 10 rest.length := Nat.mul_le_mul_right _ (by omega)
      _ = (n + 1) * (Nat.pow 10 rest.length * 10) := by rw [Nat.mul_assoc, Nat.mul_comm 10]
      _ = (n + 1) * Nat.pow 10 (c :: rest).length := rfl

theorem isWritable_decimalNumber {digits : List Char} (h : digits.length ≤ maxDigits) :
    IsWritable (decimalNumber digits) := by
  have hlt := foldl_decimalValue_lt 0 digits
  rw [Nat.zero_add, Nat.one_mul] at hlt
  exact Nat.lt_of_lt_of_le hlt (Nat.pow_le_pow_right (by decide) h)

end LocalizedKeys.Text
