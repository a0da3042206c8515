/-
# The texts the constant layout accepts

`src/gpu/native/native_constant_layout.h`, `NativeConstantLayoutMetadata`, over whole
histories of `SetRuns` and `SetUpperBound`.

A `cruns=` text is a grammar (`RunsText`): items of two numbers with a dash between
them, joined by commas.  `SetRuns` scans it with two searches and a digit loop, and
`parseRuns_iff` says that the scanner accepts the grammar and nothing else.  Over a
history, the flags of the object say which calls were accepted
(`hasPackedLayout_iff`, `haveUpperBound_iff`), and a rejected call is never forgotten
(`isValid_after_rejection`).
-/

import BoltsRebuilt.Constants.Layout
import BoltsRebuilt.Lib.History

namespace BoltsRebuilt
namespace Constants

open Text

/-! ### The grammar -/

/-- A decimal number that fits `uint32_t`. -/
def Numeral (text : List Char) : Prop :=
  text ≠ [] ∧ text.all Char.isDigit = true ∧ digitsValue text < 2 ^ 32

instance (text : List Char) : Decidable (Numeral text) := inferInstanceAs (Decidable (_ ∧ _ ∧ _))

/-- An item as it is written. -/
structure RunItem where
  first : List Char
  last : List Char

namespace RunItem

def text (i : RunItem) : List Char := i.first ++ '-' :: i.last

/-- The run an item stands for. -/
def run (i : RunItem) : Run :=
  ⟨digitsValue i.first, digitsValue i.last - digitsValue i.first + 1⟩

/-- Two numbers in order and below 256. -/
structure Valid (i : RunItem) : Prop where
  first : Numeral i.first
  last : Numeral i.last
  le : digitsValue i.first ≤ digitsValue i.last
  le_max : digitsValue i.last ≤ 255

end RunItem

/-- The registers of a list of items. -/
def registers (items : List RunItem) : ℕ := (items.map fun i => i.run.count).sum

/-- A `cruns=` text: items joined by commas, of 256 registers at most; no items make the empty
text. -/
structure RunsText (text : List Char) (items : List RunItem) : Prop where
  text_eq : text = [','].intercalate (items.map RunItem.text)
  valid : ∀ i ∈ items, i.Valid
  registers_le : registers items ≤ 256

/-! ### The scanner -/

/-- The number parser accepts exactly the numerals of 32 bits, and reads their value. -/
theorem unsigned_iff {text : List Char} {value : ℕ} :
    unsigned text = some value ↔ Numeral text ∧ value = digitsValue text := by
  rw [unsigned]
  constructor
  · intro h
    split at h
    next hnumeral => exact ⟨hnumeral, (Option.some.inj h).symm⟩
    next => cases h
  · rintro ⟨hnumeral, rfl⟩
    exact if_pos hnumeral

/-- A digit is neither separator. -/
theorem Numeral.ne_separator {text : List Char} (h : Numeral text) {c : Char} (hc : c ∈ text) :
    c ≠ '-' ∧ c ≠ ',' := by
  have hd := List.all_eq_true.1 h.2.1 c hc
  constructor <;> rintro rfl <;> exact absurd hd (by decide)

/-- The first dash of an item ends its first number, since no digit is a dash. -/
theorem takeWhile_dash {before after : List Char} (h : ∀ c ∈ before, c ≠ '-') :
    (before ++ '-' :: after).takeWhile (· ≠ '-') = before := by
  rw [List.takeWhile_append_of_pos fun c hc => by simpa using h c hc]
  simp

/-- A run is accepted exactly when it is the text of a valid one that still fits the 256 registers. -/
theorem parseItem_iff {total : ℕ} {item : List Char} {run : Run} (htotal : total ≤ 256) :
    parseItem total item = some run ↔
      ∃ i : RunItem, item = i.text ∧ i.Valid ∧ run = i.run ∧ total + run.count ≤ 256 := by
  constructor
  · intro h
    rw [parseItem] at h
    split at h
    next => cases h
    next dash after hdrop =>
      -- the character the prefix stops at is the dash
      have hsplit : item = item.takeWhile (· ≠ '-') ++ dash :: after := by
        rw [← hdrop]
        exact (List.prefix_iff_eq_append.1 (List.takeWhile_prefix _)).symm
      have hdash : dash = '-' := by
        have hrest := List.takeWhile_append_dropWhile (p := (· ≠ '-')) (l := item)
        have hdropWhile : item.dropWhile (· ≠ '-') = dash :: after :=
          List.append_cancel_left (hrest.trans hsplit)
        have hhead := List.head?_dropWhile_not (· ≠ '-') item
        rw [hdropWhile] at hhead
        simpa using hhead
      obtain ⟨first, hfirst, h⟩ := Option.bind_eq_some_iff.1 h
      obtain ⟨last, hlast, h⟩ := Option.bind_eq_some_iff.1 h
      obtain ⟨hbefore, rfl⟩ := unsigned_iff.1 hfirst
      obtain ⟨hafter, rfl⟩ := unsigned_iff.1 hlast
      split at h
      next => cases h
      next hbounds =>
        rw [hdash] at hsplit
        have hrun := Option.some.inj h
        have hle : digitsValue (item.takeWhile (· ≠ '-')) ≤ digitsValue after := by omega
        refine ⟨⟨item.takeWhile (· ≠ '-'), after⟩, hsplit, ⟨hbefore, hafter, hle, ?_⟩, hrun.symm, ?_⟩
        · show digitsValue after ≤ 255
          omega
        · rw [← hrun]
          show total + (digitsValue after - digitsValue (item.takeWhile (· ≠ '-')) + 1) ≤ 256
          omega
  · rintro ⟨i, rfl, hvalid, rfl, hfits⟩
    have hbefore : i.text.takeWhile (· ≠ '-') = i.first :=
      takeWhile_dash fun c hc => (hvalid.first.ne_separator hc).1
    have hafter : i.text.drop i.first.length = '-' :: i.last := by
      rw [RunItem.text, List.drop_left]
    rw [parseItem, hbefore]
    simp only [hafter, unsigned_iff.2 ⟨hvalid.first, rfl⟩, unsigned_iff.2 ⟨hvalid.last, rfl⟩,
      Option.bind_eq_bind, Option.bind_some]
    have hle := hvalid.le
    have hmax := hvalid.le_max
    have hfits : total + (digitsValue i.last - digitsValue i.first + 1) ≤ 256 := hfits
    rw [if_neg (by omega)]
    rfl

/-- The registers of a list of runs are those of its first and those of the others. -/
theorem registers_cons (i : RunItem) (items : List RunItem) :
    registers (i :: items) = i.run.count + registers items := by
  rw [registers, List.map_cons, List.sum_cons, registers]

/-- The pieces the scanner accepts are items, and their registers fit. -/
theorem parseRuns_iff {total total' : ℕ} {pieces : List (List Char)} {runs : List Run}
    (htotal : total ≤ 256) :
    parseRuns total pieces = some (runs, total') ↔
      ∃ items : List RunItem, pieces = items.map RunItem.text ∧ (∀ i ∈ items, i.Valid) ∧
        runs = items.map RunItem.run ∧ total' = total + registers items ∧ total' ≤ 256 := by
  induction pieces generalizing total runs with
  | nil =>
      rw [parseRuns]
      constructor
      · intro h
        obtain ⟨rfl, rfl⟩ := Prod.mk.inj (Option.some.inj h)
        exact ⟨[], rfl, by simp, rfl, rfl, htotal⟩
      · rintro ⟨items, hpieces, -, rfl, rfl, -⟩
        rw [List.map_eq_nil_iff.1 hpieces.symm]
        rfl
  | cons piece pieces ih =>
      rw [parseRuns]
      constructor
      · intro h
        obtain ⟨run, hrun, h⟩ := Option.bind_eq_some_iff.1 h
        obtain ⟨⟨rest, total''⟩, hrest, h⟩ := Option.bind_eq_some_iff.1 h
        obtain ⟨rfl, rfl⟩ := Prod.mk.inj (Option.some.inj h)
        obtain ⟨i, rfl, hvalid, rfl, hfits⟩ := (parseItem_iff htotal).1 hrun
        obtain ⟨items, rfl, hitems, rfl, hsum, hle⟩ := (ih hfits).1 hrest
        refine ⟨i :: items, rfl, List.forall_mem_cons.2 ⟨hvalid, hitems⟩, rfl, ?_, hle⟩
        rw [hsum, registers_cons, Nat.add_assoc]
      · rintro ⟨items, hpieces, hvalid, rfl, rfl, hle⟩
        obtain ⟨i, items, rfl, rfl, rfl⟩ := List.map_eq_cons_iff.1 hpieces.symm
        rw [List.forall_mem_cons] at hvalid
        have hsum : total + registers (i :: items) = total + i.run.count + registers items := by
          rw [registers_cons, Nat.add_assoc]
        have hfits : total + i.run.count ≤ 256 := by omega
        rw [(parseItem_iff htotal).2 ⟨i, rfl, hvalid.1, rfl, hfits⟩]
        simp only [Option.bind_eq_bind, Option.bind_some]
        rw [(ih hfits).2 ⟨items, rfl, hvalid.2, rfl, hsum, hle⟩]
        rfl

/-- No item holds a comma, so the commas of a text are those between its items. -/
theorem RunItem.Valid.ne_comma {i : RunItem} (h : i.Valid) {c : Char} (hc : c ∈ i.text) : c ≠ ',' := by
  rw [RunItem.text, List.mem_append, List.mem_cons] at hc
  rcases hc with hc | rfl | hc
  · exact (h.first.ne_separator hc).2
  · decide
  · exact (h.last.ne_separator hc).2

/-- The pieces of a text. -/
def pieces (text : List Char) : List (List Char) := if text = [] then [] else splitBy (· = ',') text

/-- Cutting a text at its commas can be undone. -/
theorem intercalate_pieces (text : List Char) : [','].intercalate (pieces text) = text := by
  rw [pieces]
  split
  next h =>
    rw [h]
    rfl
  next => exact intercalate_splitBy ',' text

/-- And cutting what was joined gives the runs back. -/
theorem pieces_intercalate {items : List RunItem} (h : ∀ i ∈ items, i.Valid) :
    pieces ([','].intercalate (items.map RunItem.text)) = items.map RunItem.text := by
  rw [pieces]
  cases items with
  | nil => rfl
  | cons i items =>
      have hne : [','].intercalate ((i :: items).map RunItem.text) ≠ [] := by
        cases items <;> simp [List.intercalate, RunItem.text]
      rw [if_neg hne, splitBy_intercalate (by simp) (by simp)]
      intro piece hpiece c hc
      obtain ⟨i', hi', rfl⟩ := List.mem_map.1 hpiece
      simpa using (h i' hi').ne_comma hc

/-- **The scanner accepts the grammar**: the runs that it reads are those of the text, and their
registers add up to the total. -/
theorem parseRuns_pieces_iff {text : List Char} {runs : List Run} {total : ℕ} :
    parseRuns 0 (pieces text) = some (runs, total) ↔
      ∃ items, RunsText text items ∧ runs = items.map RunItem.run ∧ total = registers items := by
  rw [parseRuns_iff (Nat.zero_le _)]
  constructor
  · rintro ⟨items, hpieces, hvalid, hruns, htotal, hle⟩
    rw [Nat.zero_add] at htotal
    refine ⟨items, ⟨?_, hvalid, htotal ▸ hle⟩, hruns, htotal⟩
    rw [← hpieces, intercalate_pieces]
  · rintro ⟨items, ⟨rfl, hvalid, hle⟩, hruns, htotal⟩
    refine ⟨items, pieces_intercalate hvalid, hvalid, hruns, ?_, htotal ▸ hle⟩
    rw [Nat.zero_add, htotal]

/-! ### One call -/

namespace Layout

/-- The layout after an accepted `SetRuns`. -/
def withRuns (l : Layout) (items : List RunItem) : Layout :=
  { l with hasPackedLayout := true, packedRegisters := registers items, runs := items.map RunItem.run }

/-- The first text of runs that is valid is accepted. -/
theorem setRuns_accepts {l : Layout} {text : List Char} {items : List RunItem}
    (hl : l.hasPackedLayout = false) (h : RunsText text items) :
    l.setRuns text = (true, l.withRuns items) := by
  have hparse : parseRuns 0 (if text = [] then [] else splitBy (· = ',') text) =
      some (items.map RunItem.run, registers items) :=
    parseRuns_pieces_iff.2 ⟨items, h, rfl, rfl⟩
  rw [setRuns, if_neg (by simp [hl]), hparse]
  rfl

/-- `SetRuns` fails on all else: a second call, or a text that is not one of valid runs; the layout
is then invalid for good. -/
theorem setRuns_rejects {l : Layout} {text : List Char}
    (h : l.hasPackedLayout = true ∨ ¬∃ items, RunsText text items) : l.setRuns text = l.fail := by
  rw [setRuns]
  split
  next => rfl
  next hl =>
    split
    next runs total hparse =>
      obtain ⟨items, hitems, -⟩ := parseRuns_pieces_iff.1 hparse
      rcases h with h | h
      · exact absurd h hl
      · exact absurd ⟨items, hitems⟩ h
    next => rfl

/-- And the first upper bound that is valid. -/
theorem setUpperBound_accepts {l : Layout} {text : List Char} (hl : l.haveUpperBound = false)
    (h : Numeral text) (hle : digitsValue text ≤ 256) :
    l.setUpperBound text =
      (true, { l with haveUpperBound := true, upperBound := digitsValue text }) := by
  rw [setUpperBound, unsigned_iff.2 ⟨h, rfl⟩]
  dsimp only
  rw [if_neg]
  rintro (hhave | hlt)
  · rw [hl] at hhave
    exact Bool.false_ne_true hhave
  · omega

/-- A second upper bound, or one that is not valid, is refused and fails the layout. -/
theorem setUpperBound_rejects {l : Layout} {text : List Char}
    (h : l.haveUpperBound = true ∨ ¬(Numeral text ∧ digitsValue text ≤ 256)) :
    l.setUpperBound text = l.fail := by
  rw [setUpperBound]
  split
  next value hvalue =>
    obtain ⟨hnumeral, rfl⟩ := unsigned_iff.1 hvalue
    refine if_pos ?_
    rcases h with h | h
    · exact .inl h
    · exact .inr (Nat.lt_of_not_le fun hle => h ⟨hnumeral, hle⟩)
  next => rfl

end Layout

/-! ### Histories -/

/-- A call of either setter. -/
inductive SetterCall where
  | setRuns (text : List Char)
  | setUpperBound (text : List Char)

namespace Layout

/-- The answer and the layout after a call. -/
def call (l : Layout) : SetterCall → Bool × Layout
  | .setRuns text => l.setRuns text
  | .setUpperBound text => l.setUpperBound text

/-- The layout after a history. -/
def after (l : Layout) (calls : List SetterCall) : Layout :=
  calls.foldl (fun (l : Layout) c => (l.call c).2) l

/-- What a call does to a layout: it takes on the runs, or the upper bound, or fails and leaves the
layout invalid. -/
theorem call_cases (l : Layout) (c : SetterCall) :
    (∃ text items, c = .setRuns text ∧ l.hasPackedLayout = false ∧ RunsText text items ∧
      l.call c = (true, l.withRuns items)) ∨
    (∃ text, c = .setUpperBound text ∧ l.haveUpperBound = false ∧ Numeral text ∧
      digitsValue text ≤ 256 ∧
      l.call c = (true, { l with haveUpperBound := true, upperBound := digitsValue text })) ∨
    l.call c = l.fail := by
  cases c with
  | setRuns text =>
      by_cases h : l.hasPackedLayout = true ∨ ¬∃ items, RunsText text items
      · exact .inr (.inr (setRuns_rejects h))
      · obtain ⟨hl, hitems⟩ := not_or.1 h
        obtain ⟨items, hitems⟩ := not_not.1 hitems
        have hl : l.hasPackedLayout = false := Bool.eq_false_iff.2 hl
        exact .inl ⟨text, items, rfl, hl, hitems, setRuns_accepts hl hitems⟩
  | setUpperBound text =>
      by_cases h : l.haveUpperBound = true ∨ ¬(Numeral text ∧ digitsValue text ≤ 256)
      · exact .inr (.inr (setUpperBound_rejects h))
      · obtain ⟨hl, hnumeral⟩ := not_or.1 h
        obtain ⟨hnumeral, hle⟩ := not_not.1 hnumeral
        have hl : l.haveUpperBound = false := Bool.eq_false_iff.2 hl
        exact .inr (.inl ⟨text, rfl, hl, hnumeral, hle, setUpperBound_accepts hl hnumeral hle⟩)

/-- A call that is not accepted changes nothing but the validity. -/
theorem call_rejected {l : Layout} {c : SetterCall} (h : (l.call c).1 = false) :
    (l.call c).2 = { l with valid := false } := by
  rcases l.call_cases c with ⟨_, _, _, _, _, hc⟩ | ⟨_, _, _, _, _, hc⟩ | hc
  · rw [hc] at h
    exact absurd h.symm Bool.false_ne_true
  · rw [hc] at h
    exact absurd h.symm Bool.false_ne_true
  · rw [hc]
    rfl

/-- Nothing makes an invalid layout valid again, since every call only clears the flag. -/
theorem valid_call (l : Layout) (c : SetterCall) (h : l.valid = false) : (l.call c).2.valid = false := by
  rcases l.call_cases c with ⟨_, _, _, _, _, hc⟩ | ⟨_, _, _, _, _, hc⟩ | hc <;> rw [hc]
  · exact h
  · exact h
  · rfl

/-- **A rejection is never forgotten**: after one the layout is not valid, whatever is accepted
later. -/
theorem isValid_after_rejection {l : Layout} {c : SetterCall} (h : (l.call c).1 = false)
    (later : List SetterCall) : ((l.call c).2.after later).isValid = false := by
  have hvalid : (l.call c).2.valid = false := by
    rw [call_rejected h]
  have hlater : ((l.call c).2.after later).valid = false :=
    History.invariant (fun (l : Layout) c => l.valid_call c) hvalid later
  rw [isValid, hlater, Bool.false_and]

end Layout

/-- Some call of the history that `P` holds of was accepted. -/
def Accepted (P : SetterCall → Prop) (calls : List SetterCall) : Prop :=
  ∃ before c later, calls = before ++ c :: later ∧ P c ∧
    ((({} : Layout).after before).call c).1 = true

/-- A flag that the accepted calls of one kind set, and nothing clears, says whether there was
one. -/
theorem flag_iff {flag : Layout → Bool} {P : SetterCall → Prop} (hstart : flag {} = false)
    (hset : ∀ (l : Layout) c, P c → (l.call c).1 = true → flag (l.call c).2 = true)
    (hkeep : ∀ l c, flag l = true → flag (l.call c).2 = true)
    (hmake : ∀ l c, flag (l.call c).2 = true → P c ∧ (l.call c).1 = true ∨ flag l = true)
    (calls : List SetterCall) : flag (({} : Layout).after calls) = true ↔ Accepted P calls := by
  constructor
  · intro h
    rcases @History.made_and_kept Layout SetterCall (fun l c => (l.call c).2) (fun _ => True)
        (fun l => flag l = true) (fun l c => P c ∧ (l.call c).1 = true) (fun _ _ => True)
        (fun _ _ _ => trivial) (fun l c _ h => (hmake l c h).imp_right fun hl => ⟨hl, trivial⟩) _ _
        trivial h with
      ⟨hbefore, -⟩ | ⟨before, c, later, hcalls, hmakes, -⟩
    · exact absurd (hstart.symm.trans hbefore) Bool.false_ne_true
    · exact ⟨before, c, later, hcalls, hmakes⟩
  · rintro ⟨before, c, later, rfl, hP, haccepted⟩
    rw [Layout.after, List.foldl_append, List.foldl_cons]
    exact History.invariant (I := fun l : Layout => flag l = true) hkeep (hset _ c hP haccepted) later

def SetterCall.IsRuns : SetterCall → Prop
  | setRuns _ => True
  | setUpperBound _ => False

def SetterCall.IsUpperBound : SetterCall → Prop
  | setRuns _ => False
  | setUpperBound _ => True

/-- A layout has runs exactly when a call for runs was accepted. -/
theorem hasPackedLayout_iff (calls : List SetterCall) :
    (({} : Layout).after calls).hasPackedLayout = true ↔ Accepted SetterCall.IsRuns calls := by
  refine flag_iff rfl (fun l c hP haccepted => ?_) (fun l c h => ?_) (fun l c h => ?_) calls
  · rcases l.call_cases c with ⟨_, _, _, _, _, hc⟩ | ⟨_, rfl, _⟩ | hc
    · rw [hc]
      rfl
    · exact absurd hP id
    · rw [hc] at haccepted
      exact absurd haccepted Bool.false_ne_true
  · rcases l.call_cases c with ⟨_, _, _, _, _, hc⟩ | ⟨_, _, _, _, _, hc⟩ | hc <;> rw [hc]
    · rfl
    · exact h
    · exact h
  · rcases l.call_cases c with ⟨_, _, rfl, _, _, hc⟩ | ⟨_, _, _, _, _, hc⟩ | hc <;> rw [hc] at h ⊢
    · exact .inl ⟨trivial, rfl⟩
    · exact .inr h
    · exact .inr h

/-- And it has an upper bound exactly when a call for one was. -/
theorem haveUpperBound_iff (calls : List SetterCall) :
    (({} : Layout).after calls).haveUpperBound = true ↔ Accepted SetterCall.IsUpperBound calls := by
  refine flag_iff rfl (fun l c hP haccepted => ?_) (fun l c h => ?_) (fun l c h => ?_) calls
  · rcases l.call_cases c with ⟨_, _, rfl, _⟩ | ⟨_, _, _, _, _, hc⟩ | hc
    · exact absurd hP id
    · rw [hc]
    · rw [hc] at haccepted
      exact absurd haccepted Bool.false_ne_true
  · rcases l.call_cases c with ⟨_, _, _, _, _, hc⟩ | ⟨_, _, _, _, _, hc⟩ | hc <;> rw [hc]
    · exact h
    · exact h
  · rcases l.call_cases c with ⟨_, _, _, _, _, hc⟩ | ⟨_, rfl, _, _, _, hc⟩ | hc <;> rw [hc] at h ⊢
    · exact .inr h
    · exact .inl ⟨trivial, rfl⟩
    · exact .inr h

/-- **The metadata parser.**  After any history of calls, `SetRuns` accepts the texts of the
grammar when none was accepted before, and holds their runs and total; `SetUpperBound` accepts the
numbers up to 256 when none was accepted before; a rejected call keeps what was set and makes the
layout invalid for good; and an accepted empty list agrees with the upper bound 0 alone. -/
theorem constantLayoutMetadata (calls : List SetterCall) :
    let l := ({} : Layout).after calls
    (∀ text, (l.setRuns text).1 = true ↔
      ¬Accepted SetterCall.IsRuns calls ∧ ∃ items, RunsText text items) ∧
    (∀ text items, RunsText text items → (l.setRuns text).1 = true →
      (l.setRuns text).2 = { l with
        hasPackedLayout := true
        packedRegisters := registers items
        runs := items.map RunItem.run }) ∧
    (∀ text, (l.setUpperBound text).1 = true ↔
      ¬Accepted SetterCall.IsUpperBound calls ∧ Numeral text ∧ digitsValue text ≤ 256) ∧
    (∀ text, (l.setUpperBound text).1 = true → (l.setUpperBound text).2 =
      { l with haveUpperBound := true, upperBound := digitsValue text }) ∧
    (∀ c, (l.call c).1 = false → (l.call c).2 = { l with valid := false } ∧
      ∀ later, ((l.call c).2.after later).isValid = false) ∧
    (Accepted SetterCall.IsRuns calls → l.runs = [] → Accepted SetterCall.IsUpperBound calls →
      l.isValid = true → l.upperBound = 0) := by
  intro l
  have hruns := hasPackedLayout_iff calls
  have hbound := haveUpperBound_iff calls
  refine ⟨fun text => ?_, fun text items hitems haccepted => ?_, fun text => ?_, fun text haccepted => ?_,
    fun c h => ⟨Layout.call_rejected h, Layout.isValid_after_rejection h⟩,
    fun haccepted hnil hupper hvalid => ?_⟩
  · rw [← hruns, Bool.not_eq_true]
    constructor
    · intro haccepted
      by_contra h
      have hrejected : l.setRuns text = l.fail := Layout.setRuns_rejects <| by
        rw [← Bool.not_eq_false]
        exact not_and_or.1 h
      rw [hrejected] at haccepted
      exact Bool.false_ne_true haccepted
    · rintro ⟨hl, items, hitems⟩
      rw [Layout.setRuns_accepts hl hitems]
  · by_cases hl : l.hasPackedLayout = false
    · rw [Layout.setRuns_accepts hl hitems]
      rfl
    · rw [Layout.setRuns_rejects (.inl (Bool.not_eq_false _ ▸ hl))] at haccepted
      exact absurd haccepted Bool.false_ne_true
  · rw [← hbound, Bool.not_eq_true]
    constructor
    · intro haccepted
      by_contra h
      have hrejected : l.setUpperBound text = l.fail := Layout.setUpperBound_rejects <| by
        rw [← Bool.not_eq_false]
        exact not_and_or.1 h
      rw [hrejected] at haccepted
      exact Bool.false_ne_true haccepted
    · rintro ⟨hl, hnumeral, hle⟩
      rw [Layout.setUpperBound_accepts hl hnumeral hle]
  · by_cases h : l.haveUpperBound = true ∨ ¬(Numeral text ∧ digitsValue text ≤ 256)
    · rw [Layout.setUpperBound_rejects h] at haccepted
      exact absurd haccepted Bool.false_ne_true
    · obtain ⟨hl, hnumeral⟩ := not_or.1 h
      obtain ⟨hnumeral, hle⟩ := not_not.1 hnumeral
      rw [Layout.setUpperBound_accepts (Bool.eq_false_iff.2 hl) hnumeral hle]
  · rw [Layout.isValid, hruns.2 haccepted, hbound.2 hupper, hnil] at hvalid
    exact (by simpa using hvalid : _ ∧ _).2

end Constants
end BoltsRebuilt
