/-
# The constant layout the runtime reads back

`src/gpu/native/native_constant_layout.h`: `NativeConstantLayoutMetadata`.

The runtime reads the `consts=` line of a shader's sidecar with `SetUpperBound`
and its `cruns=` line with `SetRuns`.  A text is refused as a whole: nothing it
says is kept, and the layout stays invalid whatever is read after it.

`setRuns_crunsText`: `SetRuns` accepts the line printed for separated runs of
registers below 256 and reads back those runs.
-/

import BoltsRebuilt.Constants.Runs

namespace BoltsRebuilt
namespace Constants

open Spans Text

/-- `NativeGeometryPass::ConstantRun`: the first register and how many. -/
structure Run where
  first : ℕ
  count : ℕ
  deriving DecidableEq, Repr

/-- `NativeConstantLayoutMetadata`; `valid` is `valid_`. -/
structure Layout where
  upperBound : ℕ := 256
  hasPackedLayout : Bool := false
  packedRegisters : ℕ := 0
  runs : List Run := []
  haveUpperBound : Bool := false
  valid : Bool := true
  deriving DecidableEq, Repr

/-- `Unsigned`: a nonempty run of digits whose value fits `uint32_t`. -/
def unsigned (text : List Char) : Option ℕ :=
  if text ≠ [] ∧ text.all Char.isDigit ∧ digitsValue text < 2 ^ 32 then some (digitsValue text)
  else none

/-- `Fail`. -/
def Layout.fail (l : Layout) : Bool × Layout := (false, { l with valid := false })

/-- `SetUpperBound`. -/
def Layout.setUpperBound (l : Layout) (text : List Char) : Bool × Layout :=
  match unsigned text with
  | some value =>
      if l.haveUpperBound ∨ 256 < value then l.fail
      else (true, { l with haveUpperBound := true, upperBound := value })
  | none => l.fail

/-- One item of `SetRuns`, after runs of `total` registers. -/
def parseItem (total : ℕ) (item : List Char) : Option Run :=
  let before := item.takeWhile (· ≠ '-')
  match item.drop before.length with
  | [] => none
  | _ :: after => do
      let first ← unsigned before
      let last ← unsigned after
      if last < first ∨ 256 ≤ last ∨ 256 - total < last - first + 1 then none
      else some ⟨first, last - first + 1⟩

/-- The loop of `SetRuns` over the items between the commas, with the total so
far.  The empty item after a last comma has no dash and is refused. -/
def parseRuns : ℕ → List (List Char) → Option (List Run × ℕ)
  | total, [] => some ([], total)
  | total, item :: items => do
      let run ← parseItem total item
      let (runs, total) ← parseRuns (total + run.count) items
      some (run :: runs, total)

/-- `SetRuns`. -/
def Layout.setRuns (l : Layout) (text : List Char) : Bool × Layout :=
  if l.hasPackedLayout then l.fail
  else
    match parseRuns 0 (if text = [] then [] else splitBy (· = ',') text) with
    | some (runs, total) => (true, { l with hasPackedLayout := true, packedRegisters := total, runs })
    | none => l.fail

/-- `valid()`. -/
def Layout.isValid (l : Layout) : Bool :=
  l.valid && (!(l.hasPackedLayout && l.haveUpperBound && l.runs.isEmpty) || l.upperBound = 0)

/-! ### Reading the printed line -/

/-- A span as the runtime keeps it. -/
def Run.ofSpan (s : Span) : Run := ⟨s.1, Span.size s⟩

/-- The number parser reads back a printed number. -/
theorem unsigned_decimal {n : ℕ} (h : n < 2 ^ 32) : unsigned (decimal n) = some n := by
  rw [unsigned, digitsValue_decimal, if_pos]
  exact ⟨decimal_ne_nil n, List.all_eq_true.2 fun c hc => isDigit_of_mem_decimal hc, h⟩

/-- No character of a number is one of the separators. -/
theorem ne_of_mem_decimal {n : ℕ} {c : Char} (h : c ∈ decimal n) : c ≠ '-' ∧ c ≠ ',' := by
  have hd := isDigit_of_mem_decimal h
  constructor <;> rintro rfl <;> simp at hd

/-- A printed run is read back as that run, as long as it lies inside the 256 registers and still
fits the total. -/
theorem parseItem_runText {total : ℕ} {s : Span} (hle : s.1 ≤ s.2) (hlt : s.2 < 256)
    (htotal : total + Span.size s ≤ 256) : parseItem total (runText s) = some (.ofSpan s) := by
  have hbefore : (runText s).takeWhile (· ≠ '-') = decimal s.1 := by
    rw [runText, List.takeWhile_append_of_pos fun c hc => by simpa using (ne_of_mem_decimal hc).1]
    simp
  have hafter : (runText s).drop (decimal s.1).length = '-' :: decimal s.2 := by
    rw [runText, List.drop_left]
  rw [parseItem, hbefore]
  simp only [hafter, unsigned_decimal (show s.1 < 2 ^ 32 by omega),
    unsigned_decimal (show s.2 < 2 ^ 32 by omega), Option.bind_eq_bind, Option.bind_some]
  rw [Span.size] at htotal
  rw [if_neg (by omega), Run.ofSpan, Span.size]
  congr 2
  omega

/-- And so are all runs of a layout, with the number of their registers. -/
theorem parseRuns_runText {runs : List Span} (hle : ∀ s ∈ runs, s.1 ≤ s.2)
    (hlt : ∀ s ∈ runs, s.2 < 256) {total : ℕ} (htotal : total + (runs.map Span.size).sum ≤ 256) :
    parseRuns total (runs.map runText) =
      some (runs.map .ofSpan, total + (runs.map Span.size).sum) := by
  induction runs generalizing total with
  | nil => rfl
  | cons s rest ih =>
      rw [List.forall_mem_cons] at hle hlt
      rw [List.map_cons, List.sum_cons] at htotal
      have hrest : total + Span.size s + (rest.map Span.size).sum ≤ 256 := by omega
      rw [List.map_cons, parseRuns, parseItem_runText hle.1 hlt.1 (by omega)]
      simp only [Option.bind_eq_bind, Option.bind_some, Run.ofSpan]
      rw [ih hle.2 hlt.2 hrest]
      simp [Run.ofSpan, Nat.add_assoc]

/-- **The printed runs are read back.**  A layout that has not read a `cruns=`
line accepts that of separated runs below 256 and holds those runs, with their
total. -/
theorem setRuns_crunsText {l : Layout} (hl : l.hasPackedLayout = false) {runs : List Span}
    (hsep : Separated runs) (hlt : ∀ s ∈ runs, s.2 < 256) :
    l.setRuns (crunsText runs) =
      (true, { l with
        hasPackedLayout := true
        packedRegisters := (cells runs).length
        runs := runs.map .ofSpan }) := by
  have htotal : (cells runs).length ≤ 256 := hsep.length_cells_le hlt
  rw [length_cells] at htotal
  have hparse : parseRuns 0 (if crunsText runs = [] then [] else splitBy (· = ',') (crunsText runs)) =
      some (runs.map .ofSpan, (runs.map Span.size).sum) := by
    rcases List.eq_nil_or_concat runs with rfl | ⟨init, s, hs⟩
    · rfl
    · have hne : runs ≠ [] := by rw [hs]; simp
      have htext : crunsText runs ≠ [] := by
        obtain ⟨s, rest, rfl⟩ := List.exists_cons_of_ne_nil hne
        cases rest <;> simp [crunsText, List.intercalate, runText]
      rw [if_neg htext, crunsText, splitBy_intercalate (by simp) (by simpa using hne) ?_]
      · simpa using parseRuns_runText hsep.nonempty hlt (show 0 + _ ≤ 256 by omega)
      · intro item hitem c hc
        obtain ⟨s, -, rfl⟩ := List.mem_map.1 hitem
        rw [runText, List.mem_append, List.mem_cons] at hc
        rcases hc with hc | rfl | hc
        · simpa using (ne_of_mem_decimal hc).2
        · rfl
        · simpa using (ne_of_mem_decimal hc).2
  rw [Layout.setRuns, if_neg (by simp [hl]), hparse, length_cells]

end Constants
end BoltsRebuilt
