/-
# Text as a list of characters

The scanners of this development read text one character at a time, and what
is proved about them goes by induction on the text, so a text here is a
`List Char`.  The operations are those the scanners are written in: stripping,
splitting at white space or at a separator, a prefix test that returns what
follows, and decimal numbers.

`decimal` prints a number and `digitsValue` reads a run of digits back, high
digit first; `digitsValue_decimal` is the round trip.
-/

import Mathlib.Algebra.GroupWithZero.Nat
import Mathlib.Algebra.Ring.Int.Defs
import Mathlib.Data.List.Basic
import Mathlib.Order.Lattice.Nat
import Mathlib.Data.Nat.Digits.Defs
import Mathlib.Tactic.IntervalCases

namespace BoltsRebuilt
namespace Text

/-- White space as `str.isspace` has it. -/
def isSpace (c : Char) : Bool :=
  let n := c.toNat
  (9 ≤ n && n ≤ 13) || (28 ≤ n && n ≤ 32) || n = 0x85 || n = 0xA0 || n = 0x1680 ||
    (0x2000 ≤ n && n ≤ 0x200A) || n = 0x2028 || n = 0x2029 || n = 0x202F || n = 0x205F ||
    n = 0x3000

/-- Line ends as `str.splitlines` has them. -/
def isLineEnd (c : Char) : Bool :=
  let n := c.toNat
  (10 ≤ n && n ≤ 13) || (28 ≤ n && n ≤ 30) || n = 0x85 || n = 0x2028 || n = 0x2029

def lstrip (s : List Char) : List Char := s.dropWhile isSpace

def rstrip (s : List Char) : List Char := (s.reverse.dropWhile isSpace).reverse

def strip (s : List Char) : List Char := rstrip (lstrip s)

/-- The pieces of `s` between the characters `p` holds of; `cur` is the piece
being read, last character first. -/
def splitAux (p : Char → Bool) : List Char → List Char → List (List Char)
  | cur, [] => [cur.reverse]
  | cur, c :: s => if p c then cur.reverse :: splitAux p [] s else splitAux p (c :: cur) s

def splitBy (p : Char → Bool) (s : List Char) : List (List Char) := splitAux p [] s

/-- `str.splitlines`.  A carriage return and its line feed give one empty line
more than there, and no reader here looks at an empty line. -/
def splitlines (s : List Char) : List (List Char) := splitBy isLineEnd s

/-- `str.split()`: the maximal runs of characters that are not white space. -/
def words (s : List Char) : List (List Char) := (splitBy isSpace s).filter (· ≠ [])

/-- What follows `p` in `s`, when `s` starts with it. -/
def dropPrefix? : List Char → List Char → Option (List Char)
  | [], s => some s
  | _ :: _, [] => none
  | p :: ps, c :: s => if p = c then dropPrefix? ps s else none

/-- What stands before the first `//`, all of `s` when there is none:
`s.split("//")[0]`. -/
def uncomment : List Char → List Char
  | [] => []
  | c :: s => if dropPrefix? ['/', '/'] (c :: s) = none then c :: uncomment s else []

/-! ### Decimal numbers -/

/-- The decimal digits of `n`, as `str` and `std::to_string` print it. -/
def decimal (n : ℕ) : List Char := Nat.toDigits 10 n

/-- The value of a run of decimal digits read after `n`, high digit first. -/
def digitsFrom (n : ℕ) (s : List Char) : ℕ := s.foldl (fun v c => 10 * v + (c.toNat - 48)) n

/-- The value of a run of decimal digits. -/
def digitsValue (s : List Char) : ℕ := digitsFrom 0 s

/-- Reading two texts of digits is reading the second from what the first gives. -/
theorem digitsFrom_append (n : ℕ) (s t : List Char) :
    digitsFrom n (s ++ t) = digitsFrom (digitsFrom n s) t :=
  List.foldl_append

/-- A decimal digit's character gives the digit. -/
theorem digitChar_toNat_sub {d : ℕ} (h : d < 10) : (Nat.digitChar d).toNat - 48 = d := by
  interval_cases d <;> rfl

/-- A printed number has a digit. -/
theorem decimal_ne_nil (n : ℕ) : decimal n ≠ [] := Nat.toDigits_ne_nil

/-- And all of its characters are digits. -/
theorem isDigit_of_mem_decimal {n : ℕ} {c : Char} (h : c ∈ decimal n) : c.isDigit = true :=
  Nat.isDigit_of_mem_toDigits (by decide) (by decide) h

/-- Reading the digits printed for `n` gives `n` back. -/
theorem digitsValue_decimal (n : ℕ) : digitsValue (decimal n) = n := by
  induction n using Nat.strongRecOn with
  | ind n ih =>
    rcases Nat.lt_or_ge n 10 with h | h
    · rw [decimal, Nat.toDigits_of_lt_base h]
      simp [digitsValue, digitsFrom, digitChar_toNat_sub h]
    · have hq : n / 10 < n := Nat.div_lt_self (by omega) (by decide)
      have ih' := ih (n / 10) hq
      rw [digitsValue, decimal] at ih'
      rw [digitsValue, decimal, Nat.toDigits_of_base_le (by decide) h, digitsFrom_append, ih']
      simp only [digitsFrom, List.foldl_cons, List.foldl_nil,
        digitChar_toNat_sub (Nat.mod_lt n (by decide : 0 < 10))]
      omega

/-! ### Splitting what was joined -/

/-- A text without separators goes into the piece that is being read. -/
theorem splitAux_append {p : Char → Bool} {s : List Char} (hs : ∀ c ∈ s, p c = false)
    (cur t : List Char) : splitAux p cur (s ++ t) = splitAux p (s.reverse ++ cur) t := by
  induction s generalizing cur with
  | nil => rfl
  | cons c s ih =>
      rw [List.cons_append, splitAux, hs c (List.mem_cons_self ..), if_neg Bool.false_ne_true,
        ih (fun c hc => hs c (List.mem_cons_of_mem _ hc))]
      simp

/-- A separator joins pieces without it, and splitting at it gives them back. -/
theorem splitBy_intercalate {p : Char → Bool} {sep : Char} (hsep : p sep = true)
    {pieces : List (List Char)} (hne : pieces ≠ []) (h : ∀ s ∈ pieces, ∀ c ∈ s, p c = false) :
    splitBy p ([sep].intercalate pieces) = pieces := by
  induction pieces with
  | nil => exact absurd rfl hne
  | cons s rest ih =>
      have hs := h s (List.mem_cons_self ..)
      cases rest with
      | nil =>
          have happ := splitAux_append hs [] []
          rw [List.append_nil, List.append_nil] at happ
          simp [List.intercalate, splitBy, happ, splitAux]
      | cons t rest =>
          have hjoin : [sep].intercalate (s :: t :: rest) =
              s ++ sep :: [sep].intercalate (t :: rest) := by
            simp [List.intercalate]
          have ih' := ih (by simp) fun s' hs' => h s' (List.mem_cons_of_mem _ hs')
          rw [splitBy] at ih'
          rw [hjoin, splitBy, splitAux_append hs, splitAux, hsep, if_pos rfl, ih']
          simp

/-- Splitting gives at least one piece. -/
theorem splitAux_ne_nil {p : Char → Bool} (cur s : List Char) : splitAux p cur s ≠ [] := by
  induction s generalizing cur with
  | nil => simp [splitAux]
  | cons c s ih =>
      rw [splitAux]
      split
      · simp
      · exact ih _

/-- Splitting at a separator can be undone by joining with it. -/
theorem intercalate_splitAux (sep : Char) (cur s : List Char) :
    [sep].intercalate (splitAux (· = sep) cur s) = cur.reverse ++ s := by
  induction s generalizing cur with
  | nil => simp [splitAux, List.intercalate]
  | cons c s ih =>
      rw [splitAux]
      split
      next hc =>
        have hc : c = sep := of_decide_eq_true hc
        obtain ⟨t, rest, hrest⟩ := List.exists_cons_of_ne_nil (@splitAux_ne_nil (· = sep) [] s)
        have ih := ih []
        rw [hrest] at ih ⊢
        have hjoin : [sep].intercalate (cur.reverse :: t :: rest) =
            cur.reverse ++ sep :: [sep].intercalate (t :: rest) := by
          simp [List.intercalate]
        rw [hjoin, ih, hc]
        rfl
      next => rw [ih, List.reverse_cons, List.append_assoc, List.singleton_append]

/-- Joining what was split gives the text back, so splitting loses nothing. -/
theorem intercalate_splitBy (sep : Char) (s : List Char) :
    [sep].intercalate (splitBy (· = sep) s) = s :=
  intercalate_splitAux sep [] s

end Text
end BoltsRebuilt
