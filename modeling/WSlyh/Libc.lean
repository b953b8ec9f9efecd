import Mathlib.Data.List.TakeWhile
import Mathlib.Data.Nat.Digits.Lemmas
import Mathlib.Tactic.IntervalCases

/-! The pieces of the C library that the server leans on: narrowing stores into
`int`, the character classes of the C locale, `atoi` and the text of `%d`. -/

namespace WSlyh.Libc

abbrev Bytes := List UInt8

/-- A store into an `int`: only the low 32 bits survive, read in two's complement. -/
def int32 (value : Int) : Int := value.bmod (2 ^ 32)

theorem int32_eq {value : Int} (low : -2 ^ 31 ≤ value) (high : value < 2 ^ 31) :
    int32 value = value :=
  Int.bmod_eq_of_le (by omega) (by omega)

theorem int32_bounds (value : Int) : -2 ^ 31 ≤ int32 value ∧ int32 value < 2 ^ 31 := by
  have low := Int.le_bmod (x := value) (m := 2 ^ 32) (by decide)
  have high := Int.bmod_lt (x := value) (m := 2 ^ 32) (by decide)
  constructor <;> simp only [int32] <;> omega

/-- The narrowed value is the given one exactly when that one fits. -/
theorem int32_eq_iff (value : Int) : int32 value = value ↔ -2 ^ 31 ≤ value ∧ value < 2 ^ 31 := by
  constructor
  · intro same
    rw [← same]
    exact int32_bounds value
  · rintro ⟨low, high⟩
    exact int32_eq low high

/-- The conversion of an `int` to `size_t`. -/
def sizeT (value : Int) : Nat := (value % 2 ^ 64).toNat

theorem sizeT_eq (value : Int) (low : 0 ≤ value) (high : value < 2 ^ 64) : (sizeT value : Int) = value := by
  unfold sizeT
  omega

/-- The bytes of a string literal. -/
def ascii (text : String) : Bytes := text.toList.map fun c => c.toNat.toUInt8

def CR : UInt8 := 13
def LF : UInt8 := 10

def isblank (ch : UInt8) : Bool := ch == 32 || ch == 9
def isupper (ch : UInt8) : Bool := 65 ≤ ch && ch ≤ 90
def isdigit (ch : UInt8) : Bool := 48 ≤ ch && ch ≤ 57
def isspace (ch : UInt8) : Bool := ch == 32 || (9 ≤ ch && ch ≤ 13)

/-- The byte at an offset below the end of the memory. -/
def byteAt (buf : Bytes) (pos : Nat) : UInt8 := buf.getD pos 0

def digitsValue (digits : Bytes) : Nat :=
  digits.foldl (fun value digit => value * 10 + (digit.toNat - 48)) 0

/-- glibc's `atoi`: `strtol` saturates at the bounds of `long`, and the result is
then narrowed to `int`. -/
def atoi (text : Bytes) : Int :=
  match text.dropWhile isspace with
  | 45 :: rest => int32 (max (-2 ^ 63) (-(digitsValue (rest.takeWhile isdigit) : Int)))
  | 43 :: rest => int32 (min (2 ^ 63 - 1) (digitsValue (rest.takeWhile isdigit) : Int))
  | rest => int32 (min (2 ^ 63 - 1) (digitsValue (rest.takeWhile isdigit) : Int))

/-- A text that is a decimal number and nothing else. -/
def decimalValue (text : Bytes) : Option Nat :=
  if text ≠ [] ∧ text.all isdigit then some (digitsValue text) else none

private theorem plain_of_isdigit (ch : UInt8) (digit : isdigit ch = true) :
    isspace ch = false ∧ ch ≠ 45 ∧ ch ≠ 43 := by
  simp only [isdigit, isspace] at *
  grind

theorem atoi_decimal {text : Bytes} (decimal : decimalValue text = some value)
    (fits : value < 2 ^ 31) : atoi text = value := by
  unfold decimalValue at decimal
  split at decimal
  · rename_i shape
    obtain ⟨nonempty, digits⟩ := shape
    have same : digitsValue text = value := Option.some.inj decimal
    cases text with
    | nil => exact absurd rfl nonempty
    | cons first rest =>
      have firstDigit : isdigit first = true := List.all_eq_true.mp digits first (by simp)
      obtain ⟨notSpace, notMinus, notPlus⟩ := plain_of_isdigit first firstDigit
      have kept : (first :: rest).dropWhile isspace = first :: rest := by simp [notSpace]
      have all : (first :: rest).takeWhile isdigit = first :: rest :=
        List.takeWhile_eq_self_iff.mpr fun ch member => List.all_eq_true.mp digits ch member
      unfold atoi
      rw [kept]
      split
      · rename_i shape
        exact absurd (List.cons.inj shape).1 notMinus
      · rename_i shape
        exact absurd (List.cons.inj shape).1 notPlus
      · rw [all, same, int32_eq] <;> omega
  · cases decimal

/-- The text `%d` prints for a number that is not negative. -/
def decimalText (n : Nat) : Bytes :=
  if n = 0 then [48] else (Nat.digits 10 n).reverse.map fun digit => (48 + digit).toUInt8

/-- The text `%d` prints. -/
def intText (value : Int) : Bytes :=
  if value < 0 then 45 :: decimalText value.natAbs else decimalText value.natAbs

private theorem digitsValue_fold (digits : List Nat) (small : ∀ digit ∈ digits, digit < 10) :
    digitsValue (digits.reverse.map fun digit => (48 + digit).toUInt8) = Nat.ofDigits 10 digits := by
  induction digits with
  | nil => rfl
  | cons digit rest ih =>
    have bound := small digit (by simp)
    have restSmall : ∀ other ∈ rest, other < 10 := fun other member => small other (by simp [member])
    have back : ((48 + digit).toUInt8).toNat = 48 + digit := by
      rw [Nat.toUInt8, UInt8.toNat_ofNat']
      omega
    have step := ih restSmall
    unfold digitsValue at step ⊢
    rw [List.reverse_cons, List.map_append, List.foldl_append, step]
    simp only [List.map_cons, List.map_nil, List.foldl_cons, List.foldl_nil, back, Nat.ofDigits_cons]
    omega

theorem digitsValue_decimalText (n : Nat) : digitsValue (decimalText n) = n := by
  unfold decimalText
  split
  · rename_i zero
    subst zero
    rfl
  · rw [digitsValue_fold _ fun digit member => Nat.digits_lt_base (by decide) member, Nat.ofDigits_digits]

theorem isdigit_of_mem_decimalText {n : Nat} {ch : UInt8} (member : ch ∈ decimalText n) :
    isdigit ch = true := by
  unfold decimalText at member
  split at member
  · simp only [List.mem_singleton] at member
    subst member
    rfl
  · obtain ⟨digit, present, rfl⟩ := List.mem_map.mp member
    have bound : digit < 10 := Nat.digits_lt_base (by decide) (List.mem_reverse.mp present)
    interval_cases digit <;> rfl

theorem length_decimalText {width : Nat} (positive : 0 < width) (small : n < 10 ^ width) :
    (decimalText n).length ≤ width := by
  unfold decimalText
  split
  · exact positive
  · rw [List.length_map, List.length_reverse]
    exact (Nat.digits_length_le_iff (by decide) n).mpr small

/-- An `int` takes at most eleven characters. -/
theorem length_intText {value : Int} (low : -2 ^ 31 ≤ value) (high : value < 2 ^ 31) :
    (intText value).length ≤ 11 := by
  have digits : (decimalText value.natAbs).length ≤ 10 := length_decimalText (by decide) (by omega)
  unfold intText
  split
  · rw [List.length_cons]
    omega
  · omega

theorem intText_injective (same : intText a = intText b) : a = b := by
  have values : digitsValue (decimalText a.natAbs) = digitsValue (decimalText b.natAbs) →
      a.natAbs = b.natAbs := by simp only [digitsValue_decimalText, imp_self]
  have noMinus (n : Nat) (tail : Bytes) : decimalText n ≠ 45 :: tail := by
    intro shape
    have digit := isdigit_of_mem_decimalText (n := n) (shape ▸ List.mem_cons_self)
    exact absurd digit (by decide)
  unfold intText at same
  split at same <;> split at same
  · have := values (congrArg digitsValue (List.cons.inj same).2)
    omega
  · exact absurd same.symm (noMinus _ _)
  · exact absurd same (noMinus _ _)
  · have := values (congrArg digitsValue same)
    omega

/-- The text `%0*d` prints, for a width of at least 1. -/
def paddedText (width : Nat) (value : Int) : Bytes :=
  if value < 0 then
    45 :: (List.replicate (width - 1 - (decimalText value.natAbs).length) 48 ++ decimalText value.natAbs)
  else List.replicate (width - (decimalText value.natAbs).length) 48 ++ decimalText value.natAbs

theorem length_paddedText {width : Nat} {value : Int} (positive : 0 < width) (low : 0 ≤ value)
    (high : value < 10 ^ width) : (paddedText width value).length = width := by
  have magnitude : (value.natAbs : Int) = value := Int.natAbs_of_nonneg low
  have small : value.natAbs < 10 ^ width := by
    rw [← magnitude] at high
    exact_mod_cast high
  have digits := length_decimalText positive small
  rw [paddedText, if_neg (not_lt.mpr low), List.length_append, List.length_replicate]
  omega

def INT_MAX : Nat := 2 ^ 31 - 1

/-- What `snprintf` and `vsnprintf` return: the length of the whole text, if that is an `int`. -/
def printed (text : Bytes) : Int := if text.length ≤ INT_MAX then text.length else -1

/-- The memory of an array after `snprintf` has been given `size` bytes of it from `offset` on. -/
def snprintf (memory : Bytes) (offset size : Nat) (text : Bytes) : Bytes :=
  let stored := if size = 0 then [] else text.take (size - 1) ++ [0]
  memory.take offset ++ stored ++ memory.drop (offset + stored.length)

theorem printed_short {text : Bytes} (short : text.length ≤ INT_MAX) : printed text = text.length := if_pos short

theorem printed_long {text : Bytes} (long : INT_MAX < text.length) : printed text = -1 := if_neg (Nat.not_le.mpr long)

theorem length_snprintf (memory : Bytes) (offset size : Nat) (text : Bytes) (room : offset + size ≤ memory.length) :
    (snprintf memory offset size text).length = memory.length := by
  unfold snprintf
  split
  · simp
  · simp only [List.length_append, List.length_take, List.length_drop, List.length_singleton]
    omega

/-- The text replaces what was there from `offset` on. -/
theorem snprintf_eq (memory : Bytes) (offset size : Nat) (text : Bytes) (room : 0 < size) :
    ∃ rest, snprintf memory offset size text = memory.take offset ++ text.take (size - 1) ++ 0 :: rest := by
  have positive : size ≠ 0 := Nat.ne_of_gt room
  refine ⟨memory.drop (offset + (text.take (size - 1) ++ [0]).length), ?_⟩
  simp [snprintf, positive]

/-- A text that fills the rest of the array. -/
theorem snprintf_whole {memory text : Bytes} (fills : size = text.length + 1) (sized : memory.length = offset + size) :
    snprintf memory offset size text = memory.take offset ++ text ++ [0] := by
  have positive : size ≠ 0 := by omega
  have whole : text.take (size - 1) = text := List.take_of_length_le (by omega)
  simp only [snprintf, if_neg positive, whole]
  rw [List.drop_of_length_le (by simp; omega), List.append_nil, List.append_assoc]

end WSlyh.Libc
