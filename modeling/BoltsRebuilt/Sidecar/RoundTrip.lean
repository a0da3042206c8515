/-
# A sidecar is read back as it was printed

`tools/ucode2hlsl.py` against `src/gpu/native/native_shader_library.cpp`.

A printed line is its key, `=` and a value without blanks or line ends, so the
parser splits the text into the same lines and each line into the same two parts
(`Parse.line_eq`).  What is left is a lemma for each key: a list is split at its
commas into the items printed, and an item is read as the number it was.

`parseMeta_writeSidecar` puts the lines together for any well formed meta, and
`sidecar_roundTrip` says it of what the translator returns: the texture the
runtime binds to a slot is the one the shader's body fetches from that slot.
-/

import BoltsRebuilt.Sidecar.Format
import Mathlib.Data.List.TakeWhile

namespace BoltsRebuilt
namespace Sidecar

open Constants Fallible Spans Text
open Ucode (Stage Block interpolatorInputBound)

/-! ### Numbers -/

/-- A decimal digit has the value its character code gives, below ten. -/
theorem digitValue_of_isDigit {c : Char} (h : c.isDigit = true) :
    digitValue c = c.toNat - 48 ∧ digitValue c < 10 := by
  have hle : c.toNat ≤ 57 := by
    simp only [Char.isDigit, ge_iff_le, Bool.and_eq_true, decide_eq_true_eq] at h
    exact h.2
  rw [digitValue, if_pos h]
  exact ⟨rfl, by omega⟩

/-- A digit of a hash is decimal or one of the letters. -/
theorem isHexDigit_cases {c : Char} (h : isHexDigit c = true) :
    c.isDigit = true ∧ 48 ≤ c.toNat ∨
      65 ≤ c.toNat ∧ c.toNat ≤ 70 ∧ digitValue c = c.toNat - 55 := by
  rw [isHexDigit, Bool.or_eq_true] at h
  rcases h with h | h
  · simp only [Char.isDigit, ge_iff_le, Bool.and_eq_true, decide_eq_true_eq] at h ⊢
    exact .inl ⟨h, h.1⟩
  · simp only [Bool.and_eq_true, decide_eq_true_eq] at h
    have hge : 65 ≤ c.toNat := h.1
    have hle : c.toNat ≤ 70 := h.2
    have hdigit : ¬c.isDigit = true := by
      simp only [Char.isDigit, ge_iff_le, Bool.and_eq_true, decide_eq_true_eq, not_and]
      intro _ h57
      have : c.toNat ≤ 57 := h57
      omega
    have hupper : 'A' ≤ c ∧ c ≤ 'Z' :=
      ⟨h.1, UInt32.le_iff_toNat_le.2 (show c.toNat ≤ 90 by omega)⟩
    rw [digitValue, if_neg hdigit, if_pos hupper]
    exact .inr ⟨hge, hle, rfl⟩

/-- A hexadecimal digit of either case has a value below sixteen. -/
theorem digitValue_of_isHexDigit {c : Char} (h : isHexDigit c = true) : digitValue c < 16 := by
  rcases isHexDigit_cases h with ⟨h, -⟩ | ⟨-, hle, hval⟩
  · have := (digitValue_of_isDigit h).2
    omega
  · omega

/-- Folding the digits of a printed number gives the number back. -/
theorem foldl_digitValue_decimal (n : ℕ) :
    (decimal n).foldl (fun v c => 10 * v + digitValue c) 0 = n := by
  have hfold : (decimal n).foldl (fun v c => 10 * v + digitValue c) 0 = digitsValue (decimal n) := by
    refine List.foldl_ext _ _ _ fun v c hc => ?_
    rw [(digitValue_of_isDigit (isDigit_of_mem_decimal hc)).1]
  rw [hfold, digitsValue_decimal]

/-- The digits printed for `n` are read up to the next character that is none. -/
theorem leadingValue_decimal_append (n : ℕ) {rest : List Char}
    (hrest : ∀ c ∈ rest.head?, 10 ≤ digitValue c) :
    leadingValue 10 (decimal n ++ rest) = n := by
  have htake : (decimal n ++ rest).takeWhile (fun c => digitValue c < 10) = decimal n := by
    rw [List.takeWhile_append_of_pos fun c hc =>
      decide_eq_true (digitValue_of_isDigit (isDigit_of_mem_decimal hc)).2]
    cases rest with
    | nil => simp
    | cons c rest =>
        have := hrest c rfl
        rw [List.takeWhile_cons_of_neg (by simpa using this), List.append_nil]
  rw [leadingValue, htake, foldl_digitValue_decimal]

/-- A text whose first character is a hexadecimal digit has no blank and no sign
there. -/
theorem strtou_eq {limit base : ℕ} {c : Char} {s : List Char} (hc : isHexDigit c = true) :
    strtou limit base (c :: s) =
      if limit ≤ leadingValue base (dropHexMark base (c :: s)) then limit - 1
      else leadingValue base (dropHexMark base (c :: s)) := by
  have hspace : isCSpace c = false := by
    rw [Bool.eq_false_iff]
    intro h
    have hne : c ≠ ' ' := by rintro rfl; simp [isHexDigit] at hc
    have hge : 48 ≤ c.toNat := by
      rcases isHexDigit_cases hc with ⟨-, h⟩ | ⟨h, -⟩ <;> omega
    simp only [isCSpace, hne, decide_false, Bool.false_or, Bool.and_eq_true, decide_eq_true_eq] at h
    omega
  have hminus : c ≠ '-' := by rintro rfl; simp [isHexDigit] at hc
  have hplus : c ≠ '+' := by rintro rfl; simp [isHexDigit] at hc
  rw [strtou, List.dropWhile_cons_of_neg (by simp [hspace])]
  split
  rename_i neg digits hmatch
  split at hmatch
  · rename_i he
    exact absurd (List.cons.inj he).1 hminus
  · rename_i he
    exact absurd (List.cons.inj he).1 hplus
  · obtain ⟨rfl, rfl⟩ := Prod.mk.inj hmatch
    simp

/-- In base ten no mark is skipped. -/
theorem dropHexMark_ten (s : List Char) : dropHexMark 10 s = s := by
  unfold dropHexMark
  split
  · rw [if_neg (by simp)]
  · rfl

/-- `strtoul` reads a printed number up to the first character that is no digit, and 32 bits are
enough for it. -/
theorem strtoul_decimal_append {n : ℕ} (hn : n < 2 ^ 32) {rest : List Char}
    (hrest : ∀ c ∈ rest.head?, 10 ≤ digitValue c) : strtoul (decimal n ++ rest) = n := by
  obtain ⟨c, s, hcs⟩ := List.exists_cons_of_ne_nil (decimal_ne_nil n)
  have hc : isHexDigit c = true := by
    have hdigit : c.isDigit = true := isDigit_of_mem_decimal (hcs ▸ List.mem_cons_self ..)
    rw [isHexDigit, hdigit, Bool.true_or]
  rw [strtoul, hcs, List.cons_append, strtou_eq hc, dropHexMark_ten, ← List.cons_append, ← hcs,
    leadingValue_decimal_append n hrest, if_neg (by omega)]

/-- `strtoul` reads back every printed 32-bit number. -/
theorem strtoul_decimal {n : ℕ} (hn : n < 2 ^ 32) : strtoul (decimal n) = n := by
  have h := @strtoul_decimal_append n hn [] (by simp)
  rwa [List.append_nil] at h

/-- Python prints a nonnegative integer as its decimal digits. -/
theorem intText_natCast (n : ℕ) : intText n = decimal n := by
  rw [intText, if_neg (by omega), Int.natAbs_natCast]

/-! ### The hash -/

/-- The number a hash is. -/
def hashValue (text : List Char) : ℕ := text.foldl (fun v c => 16 * v + digitValue c) 0

/-- An upper-case digit. -/
def hexDigit (d : ℕ) : Char := Char.ofNat (if d < 10 then 48 + d else 55 + d)

/-- The last `k` hexadecimal digits of a number. -/
def hexDigits : ℕ → ℕ → List Char
  | 0, _ => []
  | k + 1, n => hexDigits k (n / 16) ++ [hexDigit (n % 16)]

/-- `HexHash`: `%016llX`. -/
def hexHash (hash : ℕ) : List Char := hexDigits 16 hash

/-- Printing the value of an upper-case hexadecimal digit gives the digit again. -/
theorem hexDigit_digitValue {c : Char} (h : isHexDigit c = true) : hexDigit (digitValue c) = c := by
  rcases isHexDigit_cases h with ⟨h, hge⟩ | ⟨hge, hle, hval⟩
  · have hval := digitValue_of_isDigit h
    rw [hexDigit, if_pos hval.2, hval.1, show 48 + (c.toNat - 48) = c.toNat by omega, Char.ofNat_toNat]
  · rw [hexDigit, hval, if_neg (by omega), show 55 + (c.toNat - 55) = c.toNat by omega,
      Char.ofNat_toNat]

/-- Reading one more hexadecimal digit shifts the value by four bits and adds the digit. -/
theorem hashValue_append_singleton (s : List Char) (c : Char) :
    hashValue (s ++ [c]) = 16 * hashValue s + digitValue c := by
  simp [hashValue]

/-- Printing the number a hash text is gives the text. -/
theorem hexDigits_hashValue {s : List Char} (h : ∀ c ∈ s, isHexDigit c = true) :
    hexDigits s.length (hashValue s) = s := by
  induction s using List.reverseRecOn with
  | nil => rfl
  | append_singleton s c ih =>
      have hc := h c (by simp)
      have hlt := digitValue_of_isHexDigit hc
      rw [List.length_append, List.length_singleton, hexDigits, hashValue_append_singleton,
        show (16 * hashValue s + digitValue c) / 16 = hashValue s by omega,
        show (16 * hashValue s + digitValue c) % 16 = digitValue c by omega,
        ih fun c hc => h c (List.mem_append_left _ hc), hexDigit_digitValue hc]

/-- The value of `n` hexadecimal digits is below `16 ^ n`. -/
theorem hashValue_lt {s : List Char} (h : ∀ c ∈ s, isHexDigit c = true) :
    hashValue s < 16 ^ s.length := by
  induction s using List.reverseRecOn with
  | nil => simp [hashValue]
  | append_singleton s c ih =>
      have hlt := digitValue_of_isHexDigit (h c (by simp))
      have hs := ih fun c hc => h c (List.mem_append_left _ hc)
      rw [hashValue_append_singleton, List.length_append, List.length_singleton, pow_succ]
      omega

/-- Sixteen upper-case digits are what the value they stand for prints as. -/
theorem ShaderHash.hexHash_hashValue (hash : ShaderHash) : hexHash (hashValue hash.text) = hash.text := by
  have h := hexDigits_hashValue hash.digits
  rwa [hash.length_eq] at h

/-- `strtoull` in base sixteen reads a hash as the value of its digits, without overflow. -/
theorem ShaderHash.strtoull16_text (hash : ShaderHash) :
    strtoull16 hash.text = hashValue hash.text := by
  have hlt : hashValue hash.text < 2 ^ 64 := by
    have h := hashValue_lt hash.digits
    rw [hash.length_eq] at h
    omega
  obtain ⟨c, s, hcs⟩ : ∃ c s, hash.text = c :: s := by
    refine List.exists_cons_of_ne_nil fun h => ?_
    have := hash.length_eq
    simp [h] at this
  have hc : isHexDigit c = true := hash.digits c (hcs ▸ List.mem_cons_self ..)
  have hmark : dropHexMark 16 hash.text = hash.text := by
    unfold dropHexMark
    split
    · rename_i x c' rest he
      have hx : isHexDigit x = true := hash.digits x (by rw [he]; simp)
      have hne : ¬(x = 'x' ∨ x = 'X') := by rintro (rfl | rfl) <;> simp [isHexDigit] at hx
      rw [if_neg fun h => hne h.2.1, he]
    · rfl
  have hvalue : leadingValue 16 hash.text = hashValue hash.text := by
    rw [leadingValue, List.takeWhile_eq_self_iff.2 fun c hc =>
      decide_eq_true (digitValue_of_isHexDigit (hash.digits c hc)), hashValue]
  rw [strtoull16, hcs, strtou_eq hc, ← hcs, hmark, hvalue, if_neg (by omega)]

/-! ### Lines and items -/

/-- No line end and no blank: nothing the parser cuts at or leaves out. -/
def Plain (s : List Char) : Prop := ∀ c ∈ s, c ≠ '\n' ∧ c ≠ '\r' ∧ c ≠ ' '

/-- A text without blanks or line ends stays so when another one is appended. -/
theorem Plain.append {s t : List Char} (hs : Plain s) (ht : Plain t) : Plain (s ++ t) :=
  fun c hc => (List.mem_append.1 hc).elim (hs c) (ht c)

/-- Nor does one such character in front change it. -/
theorem Plain.cons {c : Char} {s : List Char} (hc : c ≠ '\n' ∧ c ≠ '\r' ∧ c ≠ ' ') (hs : Plain s) :
    Plain (c :: s) :=
  List.forall_mem_cons.2 ⟨hc, hs⟩

/-- A printed number holds no blank and no line end. -/
theorem plain_decimal (n : ℕ) : Plain (decimal n) := by
  intro c hc
  have hd := isDigit_of_mem_decimal hc
  refine ⟨?_, ?_, ?_⟩ <;> rintro rfl <;> simp at hd

/-- Nor does a list of such texts joined by commas. -/
theorem plain_commaJoin {items : List (List Char)} (h : ∀ item ∈ items, Plain item) :
    Plain (commaJoin items) := by
  induction items with
  | nil => simp [commaJoin, List.intercalate, Plain]
  | cons item rest ih =>
      rw [List.forall_mem_cons] at h
      cases rest with
      | nil => simpa [commaJoin, List.intercalate] using h.1
      | cons item' rest =>
          have hjoin : commaJoin (item :: item' :: rest) = item ++ ',' :: commaJoin (item' :: rest) := by
            simp [commaJoin, List.intercalate]
          rw [hjoin]
          exact h.1.append ((ih h.2).cons (by decide))

/-- Nor does the text of a hash. -/
theorem plain_hash (hash : ShaderHash) : Plain hash.text := by
  intro c hc
  have hd := hash.digits c hc
  refine ⟨?_, ?_, ?_⟩ <;> rintro rfl <;> simp [isHexDigit] at hd

/-- Items without a comma are what the joined text is split into. -/
theorem split_commaJoin {items : List (List Char)}
    (h : ∀ item ∈ items, Plain item ∧ item ≠ [] ∧ ',' ∉ item) :
    split ',' (commaJoin items) = items := by
  have hfilter : ∀ item ∈ items, (item.filter fun c => c ≠ ' ' && c ≠ '\r') = item := by
    intro item hitem
    refine List.filter_eq_self.2 fun c hc => ?_
    obtain ⟨-, hcr, hblank⟩ := (h item hitem).1 c hc
    simp [hcr, hblank]
  rcases eq_or_ne items [] with rfl | hne
  · rfl
  · have hsplit : splitBy (· = ',') (commaJoin items) = items := by
      refine splitBy_intercalate (by simp) hne fun item hitem c hc => ?_
      have hcomma : c ≠ ',' := fun he => (h item hitem).2.2 (he ▸ hc)
      simpa using hcomma
    have hmap : items.map (fun item => item.filter fun c => c ≠ ' ' && c ≠ '\r') = items :=
      (List.map_congr_left hfilter).trans (List.map_id _)
    rw [split, hsplit, hmap]
    exact List.filter_eq_self.2 fun item hitem => by simpa using (h item hitem).2.1

/-- A printed line is handled by its key, with the value as it was printed. -/
theorem Parse.line_eq (p : Parse) (key : List Char) {value : List Char} (hkey : '=' ∉ key)
    (hhash : key.head? ≠ some '#') (hvalue : Plain value) :
    p.line (key ++ '=' :: value) =
      Parse.handle { p with alphaTestVariant := p.alphaTestVariant.observe key value } key value := by
  have htake : (key ++ '=' :: value).takeWhile (· ≠ '=') = key := by
    have hne : ∀ c ∈ key, decide (c ≠ '=') = true := fun c hc =>
      decide_eq_true fun he => hkey (he ▸ hc)
    rw [List.takeWhile_append_of_pos hne]
    simp
  have hhead : (key ++ '=' :: value).head? ≠ some '#' := by
    cases key with
    | nil => simp
    | cons c key => simpa using hhash
  have hpop : popCarriageReturn value = value := by
    rw [popCarriageReturn, if_neg]
    intro hlast
    exact (hvalue '\r' (List.mem_of_getLast? hlast)).2.1 rfl
  rw [Parse.line]
  simp only [htake, List.drop_left, if_neg hhead, hpop]

/-! ### What each line is read as -/

/-- The constant layout of a meta. -/
def layoutOfMeta (m : Meta) : Layout where
  upperBound := m.consts.toNat
  hasPackedLayout := true
  packedRegisters := (cells m.cruns).length
  runs := m.cruns.map .ofSpan
  haveUpperBound := true

/-- What `ParseMeta` makes of a shader's meta. -/
def StageShader.ofMeta (hash : ShaderHash) (vertex : Bool) (m : Meta) : StageShader where
  hash := hashValue hash.text
  vertex := vertex
  textureFetchConstants := m.tex.map Int.toNat
  textureDimensions := m.texdim
  streams :=
    match m.stageMeta with
    | .vs streams _ => streams.map fun s => ⟨s.vf.toNat, s.stride.toNat⟩
    | .ps .. => []
  interpolators := m.interp
  constantCount := m.consts.toNat
  constantRuns := m.cruns.map .ofSpan
  packedConstants := (cells m.cruns).length
  hasPackedLayout := true
  writesDepth :=
    match m.stageMeta with
    | .vs .. => false
    | .ps writesDepth _ _ => writesDepth = 1
  noAlphaTestEligible :=
    match m.stageMeta with
    | .vs .. => false
    | .ps writesDepth kills _ => kills = 0 && writesDepth = 0

/-- The metas whose sidecar is read back: the numbers fit the fields they are
read into, and the lists fit the runtime's tables. -/
structure Meta.WellFormed (vertex : Bool) (m : Meta) : Prop where
  interp : m.interp ≤ 16
  tex : ∀ fc ∈ m.tex, 0 ≤ fc ∧ fc < 2 ^ 32
  texLimit : m.tex.length ≤ if vertex then 4 else 16
  sameLength : m.texdim.length = m.tex.length
  texdim : ∀ d ∈ m.texdim, d = 2 ∨ d = 3 ∨ d = 4
  consts : 0 ≤ m.consts ∧ m.consts ≤ 256
  separated : Separated m.cruns
  registers : ∀ s ∈ m.cruns, s.2 < 256
  noRuns : m.cruns = [] → m.consts = 0
  stage :
    match m.stageMeta with
    | .vs streams _ => vertex = true ∧ streams.length ≤ 16 ∧
        ∀ s ∈ streams, (0 ≤ s.vf ∧ s.vf < 96) ∧ 0 ≤ s.stride ∧ s.stride ≤ 255
    | .ps writesDepth kills _ => vertex = false ∧ writesDepth ≤ 1 ∧ kills ≤ 1

section Lines

variable (p : Parse)

/-- The `hash` line gives the hash and notes that there was one. -/
theorem Parse.line_hash (hash : ShaderHash) :
    p.line ("hash=".toList ++ hash.text) =
      some { p with shader := { p.shader with hash := hashValue hash.text }, haveHash := true } := by
  refine (p.line_eq "hash".toList (by decide) (by decide) (plain_hash hash)).trans ?_
  rw [Parse.handle, if_pos rfl, hash.strtoull16_text]
  rfl

/-- The `interp` line gives the number of interpolators. -/
theorem Parse.line_interp {n : ℕ} (hn : n < 2 ^ 32) :
    p.line ("interp=".toList ++ decimal n) =
      some { p with shader := { p.shader with interpolators := n } } := by
  refine (p.line_eq "interp".toList (by decide) (by decide) (plain_decimal n)).trans ?_
  rw [Parse.handle, if_neg (by decide), if_pos rfl, strtoul_decimal hn]
  rfl

/-- The numbers of a list are read as they were printed. -/
theorem map_strtoul_split {ns : List ℕ} (h : ∀ n ∈ ns, n < 2 ^ 32) :
    (split ',' (commaJoin (ns.map decimal))).map strtoul = ns := by
  rw [split_commaJoin]
  · rw [List.map_map]
    exact (List.map_congr_left fun n hn => strtoul_decimal (h n hn)).trans (List.map_id _)
  · intro item hitem
    obtain ⟨n, -, rfl⟩ := List.mem_map.1 hitem
    exact ⟨plain_decimal n, decimal_ne_nil n, fun hc => (ne_of_mem_decimal hc).2 rfl⟩

/-- A comma-joined list of printed numbers holds no blank and no line end. -/
theorem plain_commaJoin_decimal (ns : List ℕ) : Plain (commaJoin (ns.map decimal)) := by
  refine plain_commaJoin fun item hitem => ?_
  obtain ⟨n, -, rfl⟩ := List.mem_map.1 hitem
  exact plain_decimal n

/-- Nonnegative integers print as the naturals they are. -/
theorem map_intText {zs : List ℤ} (h : ∀ z ∈ zs, 0 ≤ z) :
    zs.map intText = (zs.map Int.toNat).map decimal := by
  rw [List.map_map]
  refine List.map_congr_left fun z hz => ?_
  have hz' := intText_natCast z.toNat
  rwa [Int.toNat_of_nonneg (h z hz)] at hz'

/-- The `tex` line gives the texture fetch constants, in the order they were printed. -/
theorem Parse.line_tex {tex : List ℤ} (h : ∀ fc ∈ tex, 0 ≤ fc ∧ fc < 2 ^ 32) :
    p.line ("tex=".toList ++ commaJoin (tex.map intText)) =
      some { p with shader := { p.shader with
        textureFetchConstants := p.shader.textureFetchConstants ++ tex.map Int.toNat } } := by
  rw [map_intText fun fc hfc => (h fc hfc).1]
  refine (p.line_eq "tex".toList (by decide) (by decide)
    (plain_commaJoin_decimal _)).trans ?_
  rw [Parse.handle, if_neg (by decide), if_neg (by decide), if_neg (by decide), if_neg (by decide),
    if_neg (by decide), if_pos rfl, map_strtoul_split]
  · rfl
  · intro n hn
    obtain ⟨fc, hfc, rfl⟩ := List.mem_map.1 hn
    have := h fc hfc
    omega

/-- Every dimension among 2, 3 and 4 is read back as it was printed. -/
theorem mapM_parseDimension {dims : List ℕ} (h : ∀ d ∈ dims, d = 2 ∨ d = 3 ∨ d = 4) :
    (dims.map decimal).mapM parseDimension = some dims := by
  induction dims with
  | nil => rfl
  | cons d dims ih =>
      rw [List.forall_mem_cons] at h
      have hd : parseDimension (decimal d) = some d := by
        rcases h.1 with rfl | rfl | rfl <;> decide
      rw [List.map_cons, List.mapM_cons, hd, ih h.2]
      rfl

/-- The `texdim` line gives the dimensions, where no such line came before it. -/
theorem Parse.line_texdim {dims : List ℕ} (h : ∀ d ∈ dims, d = 2 ∨ d = 3 ∨ d = 4)
    (hp : p.haveTextureDimensions = false) :
    p.line ("texdim=".toList ++ commaJoin (dims.map decimal)) =
      some { p with
        haveTextureDimensions := true
        shader := { p.shader with
          textureDimensions := p.shader.textureDimensions ++ dims } } := by
  refine (p.line_eq "texdim".toList (by decide) (by decide)
    (plain_commaJoin_decimal _)).trans ?_
  have hsplit : split ',' (commaJoin (dims.map decimal)) = dims.map decimal := by
    refine split_commaJoin fun item hitem => ?_
    obtain ⟨n, -, rfl⟩ := List.mem_map.1 hitem
    exact ⟨plain_decimal n, decimal_ne_nil n, fun hc => (ne_of_mem_decimal hc).2 rfl⟩
  rw [Parse.handle, if_neg (by decide), if_neg (by decide), if_neg (by decide), if_neg (by decide),
    if_neg (by decide), if_neg (by decide), if_pos rfl, if_neg (by simp [hp]), hsplit,
    mapM_parseDimension h]
  rfl

/-- The `consts` line gives the upper bound of the constants, up to 256 and once. -/
theorem Parse.line_consts {consts : ℤ} (h : 0 ≤ consts ∧ consts ≤ 256)
    (hp : p.constantLayout.haveUpperBound = false) :
    p.line ("consts=".toList ++ intText consts) =
      some { p with constantLayout := { p.constantLayout with
        haveUpperBound := true
        upperBound := consts.toNat } } := by
  obtain ⟨n, rfl⟩ := Int.eq_ofNat_of_zero_le h.1
  rw [intText_natCast]
  refine (p.line_eq "consts".toList (by decide) (by decide) (plain_decimal n)).trans ?_
  rw [Parse.handle, if_neg (by decide), if_neg (by decide), if_pos rfl, Layout.setUpperBound,
    unsigned_decimal (by omega)]
  simp only
  rw [if_neg (by simp [hp]; omega), Int.toNat_natCast]
  rfl

/-- The text of the constant runs holds no blank and no line end. -/
theorem plain_crunsText (runs : List Span) : Plain (crunsText runs) := by
  refine plain_commaJoin fun item hitem => ?_
  obtain ⟨s, -, rfl⟩ := List.mem_map.1 hitem
  exact (plain_decimal _).append ((plain_decimal _).cons (by decide))

/-- The `cruns` line gives the packed layout of the runs, when they are apart from one another and
inside the constant file. -/
theorem Parse.line_cruns {runs : List Span} (hsep : Separated runs) (hlt : ∀ s ∈ runs, s.2 < 256)
    (hp : p.constantLayout.hasPackedLayout = false) :
    p.line ("cruns=".toList ++ crunsText runs) =
      some { p with constantLayout := { p.constantLayout with
        hasPackedLayout := true
        packedRegisters := (cells runs).length
        runs := runs.map .ofSpan } } := by
  refine (p.line_eq "cruns".toList (by decide) (by decide) (plain_crunsText runs)).trans ?_
  rw [Parse.handle, if_neg (by decide), if_neg (by decide), if_neg (by decide), if_pos rfl,
    setRuns_crunsText hp hsep hlt]
  rfl

/-- One stream is read back from its fetch constant and stride. -/
theorem parseStream_streamText {st : Stream}
    (h : (0 ≤ st.vf ∧ st.vf < 96) ∧ 0 ≤ st.stride ∧ st.stride ≤ 255) :
    parseStream (streamText st) = some ⟨st.vf.toNat, st.stride.toNat⟩ := by
  obtain ⟨vf, stride⟩ := st
  obtain ⟨⟨hvf, hvf'⟩, hstride, hstride'⟩ := h
  obtain ⟨v, rfl⟩ := Int.eq_ofNat_of_zero_le hvf
  obtain ⟨k, rfl⟩ := Int.eq_ofNat_of_zero_le hstride
  have hcolon : ∀ c ∈ decimal v, decide (c ≠ ':') = true := by
    intro c hc
    have hd := isDigit_of_mem_decimal hc
    refine decide_eq_true ?_
    rintro rfl
    simp at hd
  have hbefore : (decimal v ++ ':' :: decimal k).takeWhile (· ≠ ':') = decimal v := by
    rw [List.takeWhile_append_of_pos hcolon]
    simp
  simp only at hvf' hstride'
  rw [streamText, intText_natCast, intText_natCast, parseStream]
  simp only [hbefore, List.drop_left]
  rw [strtoul_decimal_append (by omega) (by simp [digitValue]), strtoul_decimal (by omega),
    if_neg (by omega)]
  rfl

/-- And so are all streams of a shader, in their order. -/
theorem mapM_parseStream {streams : List Stream}
    (h : ∀ s ∈ streams, (0 ≤ s.vf ∧ s.vf < 96) ∧ 0 ≤ s.stride ∧ s.stride ≤ 255) :
    (streams.map streamText).mapM parseStream =
      some (streams.map fun s => ⟨s.vf.toNat, s.stride.toNat⟩) := by
  induction streams with
  | nil => rfl
  | cons s streams ih =>
      rw [List.forall_mem_cons] at h
      rw [List.map_cons, List.mapM_cons, parseStream_streamText h.1, ih h.2]
      rfl

/-- A printed integer holds no blank and no line end, its sign included. -/
theorem plain_intText (z : ℤ) : Plain (intText z) := by
  rw [intText]
  split
  · exact (plain_decimal _).cons (by decide)
  · exact plain_decimal _

/-- A printed integer holds no comma, so joining by commas can be undone. -/
theorem comma_not_mem_intText (z : ℤ) : ',' ∉ intText z := by
  have hd : ',' ∉ decimal z.natAbs := fun hc => (ne_of_mem_decimal hc).2 rfl
  rw [intText]
  split
  · simpa using hd
  · exact hd

/-- The `streams` line gives the vertex streams. -/
theorem Parse.line_streams {streams : List Stream}
    (h : ∀ s ∈ streams, (0 ≤ s.vf ∧ s.vf < 96) ∧ 0 ≤ s.stride ∧ s.stride ≤ 255) :
    p.line ("streams=".toList ++ commaJoin (streams.map streamText)) =
      some { p with shader := { p.shader with
        streams := p.shader.streams ++ streams.map fun s => ⟨s.vf.toNat, s.stride.toNat⟩ } } := by
  have hitem : ∀ item ∈ streams.map streamText, Plain item ∧ item ≠ [] ∧ ',' ∉ item := by
    intro item hitem
    obtain ⟨s, -, rfl⟩ := List.mem_map.1 hitem
    refine ⟨(plain_intText _).append ((plain_intText _).cons (by decide)), by simp [streamText], ?_⟩
    simp [streamText, comma_not_mem_intText]
  refine (p.line_eq "streams".toList (by decide) (by decide)
    (plain_commaJoin fun item h => (hitem item h).1)).trans ?_
  rw [Parse.handle, if_neg (by decide), if_neg (by decide), if_neg (by decide), if_neg (by decide),
    if_neg (by decide), if_neg (by decide), if_neg (by decide), if_pos rfl, split_commaJoin hitem,
    mapM_parseStream h]
  rfl

/-- A key the parser does not know is passed over. -/
theorem Parse.line_other (key : List Char) {value : List Char} (hkey : '=' ∉ key)
    (hhash : key.head? ≠ some '#') (hvalue : Plain value)
    (hknown : key ∉ ["hash", "interp", "consts", "cruns", "writes_depth",
      "tex", "texdim", "streams", "kills"].map String.toList) :
    p.line (key ++ '=' :: value) = some p := by
  rw [p.line_eq key hkey hhash hvalue]
  simp only [List.map_cons, List.map_nil, List.mem_cons, List.not_mem_nil, or_false, not_or] at hknown
  obtain ⟨h₁, h₂, h₃, h₄, h₅, h₆, h₇, h₈, h₉⟩ := hknown
  rw [Parse.handle, if_neg h₁, if_neg h₂, if_neg h₃, if_neg h₄, if_neg h₅, if_neg h₆, if_neg h₇,
    if_neg h₈, VariantSidecar.observe, if_neg h₉, if_neg h₅]

/-- The `kill` line is accepted and read by nothing. -/
theorem Parse.line_kill (kill : ℕ) : p.line ("kill=".toList ++ decimal kill) = some p :=
  p.line_other "kill".toList (by decide) (by decide) (plain_decimal kill) (by decide)

/-- The `colors` line is accepted and read by nothing. -/
theorem Parse.line_colors (colors : ℕ) : p.line ("colors=".toList ++ decimal colors) = some p :=
  p.line_other "colors".toList (by decide) (by decide) (plain_decimal colors) (by decide)

/-- The `writes_depth` line says whether the variant without alpha test leaves the depth alone. -/
theorem Parse.line_writes_depth {n : ℕ} (h : n ≤ 1) :
    p.line ("writes_depth=".toList ++ decimal n) =
      some { p with
        alphaTestVariant := { p.alphaTestVariant with noDepth := n = 0 }
        shader := { p.shader with writesDepth := n = 1 } } := by
  refine (p.line_eq "writes_depth".toList (by decide) (by decide)
    (plain_decimal n)).trans ?_
  rw [Parse.handle, if_neg (by decide), if_neg (by decide), if_neg (by decide), if_neg (by decide),
    if_pos rfl, VariantSidecar.observe, if_neg (by decide), if_pos rfl]
  interval_cases n <;> rfl

/-- The `kills` line says whether the variant without alpha test discards nothing. -/
theorem Parse.line_kills {n : ℕ} (h : n ≤ 1) :
    p.line ("kills=".toList ++ decimal n) =
      some { p with alphaTestVariant := { p.alphaTestVariant with noKill := n = 0 } } := by
  refine (p.line_eq "kills".toList (by decide) (by decide) (plain_decimal n)).trans ?_
  rw [Parse.handle, if_neg (by decide), if_neg (by decide), if_neg (by decide), if_neg (by decide),
    if_neg (by decide), if_neg (by decide), if_neg (by decide), if_neg (by decide),
    VariantSidecar.observe, if_pos rfl]
  interval_cases n <;> rfl

end Lines

/-! ### The whole text -/

/-- Ending the list of lines with an empty one ends the text with a line end. -/
theorem intercalate_concat_nil {lines : List (List Char)} (h : lines ≠ []) :
    ['\n'].intercalate (lines ++ [[]]) = ['\n'].intercalate lines ++ ['\n'] := by
  induction lines with
  | nil => exact absurd rfl h
  | cons line rest ih =>
      cases rest with
      | nil => simp [List.intercalate]
      | cons line' rest =>
          have ih' := ih (by simp)
          simp only [List.intercalate, List.cons_append, List.intersperse_cons_cons, List.flatten_cons,
            List.append_assoc] at ih' ⊢
          rw [ih']

/-- No line of a sidecar holds a line end, so splitting the text at its line ends gives the lines
back. -/
theorem newline_not_mem_sidecarLines (hash : ShaderHash) (m : Meta) :
    ∀ line ∈ sidecarLines hash.text m, '\n' ∉ line := by
  have hline : ∀ {key value : List Char}, '\n' ∉ key → Plain value → '\n' ∉ key ++ value := by
    intro key value hkey hvalue hmem
    exact (List.mem_append.1 hmem).elim hkey fun h => (hvalue _ h).1 rfl
  have hstreams : ∀ streams : List Stream, Plain (commaJoin (streams.map streamText)) := by
    refine fun streams => plain_commaJoin fun item hitem => ?_
    obtain ⟨s, -, rfl⟩ := List.mem_map.1 hitem
    exact (plain_intText _).append ((plain_intText _).cons (by decide))
  have htex : Plain (commaJoin (m.tex.map intText)) := by
    refine plain_commaJoin fun item hitem => ?_
    obtain ⟨z, -, rfl⟩ := List.mem_map.1 hitem
    exact plain_intText z
  intro line hmem
  rw [sidecarLines, List.mem_append] at hmem
  rcases hmem with hmem | hmem
  · simp only [List.mem_cons, List.not_mem_nil, or_false] at hmem
    rcases hmem with rfl | rfl | rfl | rfl | rfl | rfl
    · exact hline (by decide) (plain_hash hash)
    · exact hline (by decide) (plain_decimal _)
    · exact hline (by decide) htex
    · exact hline (by decide) (plain_commaJoin_decimal _)
    · exact hline (by decide) (plain_intText _)
    · exact hline (by decide) (plain_crunsText _)
  · cases hm : m.stageMeta with
    | vs streams kill =>
        simp only [hm, stageLines, List.mem_cons, List.not_mem_nil, or_false] at hmem
        rcases hmem with rfl | rfl
        · exact hline (by decide) (hstreams _)
        · exact hline (by decide) (plain_decimal _)
    | ps writesDepth kills colors =>
        simp only [hm, stageLines, List.mem_cons, List.not_mem_nil, or_false] at hmem
        rcases hmem with rfl | rfl | rfl
        · exact hline (by decide) (plain_decimal _)
        · exact hline (by decide) (plain_decimal _)
        · exact hline (by decide) (plain_decimal _)

/-- The parser goes over the printed lines and an empty one. -/
theorem splitBy_writeSidecar (hash : ShaderHash) (m : Meta) :
    splitBy (· = '\n') (writeSidecar hash.text m) = sidecarLines hash.text m ++ [[]] := by
  have hne : sidecarLines hash.text m ≠ [] := by simp [sidecarLines]
  rw [writeSidecar, ← intercalate_concat_nil hne]
  refine splitBy_intercalate (by simp) (by simp) fun line hline c hc => ?_
  rcases List.mem_append.1 hline with hline | hline
  · have hnl : c ≠ '\n' := fun he => newline_not_mem_sidecarLines hash m line hline (he ▸ hc)
    simpa using hnl
  · rw [List.mem_singleton.1 hline] at hc
    exact absurd hc List.not_mem_nil

/-- Parsing goes on with the state that a line has led to. -/
theorem foldlM_line_cons {p p' : Parse} {line : List Char} (h : p.line line = some p')
    (rest : List (List Char)) :
    (line :: rest).foldlM Parse.line p = rest.foldlM Parse.line p' := by
  rw [List.foldlM_cons, h]
  rfl

/-- **The printed sidecar is accepted.**  `ParseMeta` reads the sidecar of a well
formed meta and makes of it what the meta says. -/
theorem parseMeta_writeSidecar (hash : ShaderHash) {vertex : Bool} {m : Meta}
    (h : m.WellFormed vertex) :
    parseMeta vertex (writeSidecar hash.text m) = some (.ofMeta hash vertex m) := by
  have hinterp := h.interp
  obtain ⟨hsep, hregs, hstage⟩ := And.intro h.separated (And.intro h.registers h.stage)
  -- what is left once every line is read: the checks at the end
  have hfinish : ∀ p : Parse, p.haveHash = true → p.haveTextureDimensions = true →
      p.constantLayout = layoutOfMeta m →
      p.shader.vertex = vertex → p.shader.textureDimensions = m.texdim →
      p.shader.textureFetchConstants = m.tex.map Int.toNat → p.shader.streams.length ≤ 16 →
      p.shader.interpolators = m.interp →
      p.finish = some { p.shader with
        constantCount := m.consts.toNat
        hasPackedLayout := true
        packedConstants := (cells m.cruns).length
        constantRuns := m.cruns.map .ofSpan
        noAlphaTestEligible := !vertex && p.alphaTestVariant.eligible } := by
    intro p hhash hdims hlayout hvertex htexdim htex hstreams hint
    have hvalid : p.constantLayout.isValid = true := by
      rw [hlayout, Layout.isValid, layoutOfMeta]
      rcases eq_or_ne m.cruns [] with he | hne
      · simp [h.noRuns he]
      · simp [hne]
    have hlimit := h.texLimit
    have hlimits : ¬(¬p.haveHash = true ∨
        (if p.shader.vertex = true then 20 - 16 else 16) < p.shader.textureFetchConstants.length ∨
        16 < p.shader.streams.length ∨ 16 < p.shader.interpolators) := by
      rw [hhash, hvertex, htex, hint, List.length_map]
      cases vertex <;> simp at hlimit ⊢ <;> omega
    rw [Parse.finish, if_neg (by simp [hvalid])]
    simp only [hdims, if_true]
    rw [if_neg (by rw [htexdim, htex, List.length_map, h.sameLength]; simp), if_neg hlimits, hlayout,
      hvertex]
    rfl
  rw [parseMeta, splitBy_writeSidecar, sidecarLines]
  cases hm : m.stageMeta with
  | vs streams kill =>
      rw [hm] at hstage
      obtain ⟨rfl, hlen, hbounds⟩ := hstage
      simp only [stageLines, List.cons_append, List.nil_append]
      rw [foldlM_line_cons (Parse.line_hash _ hash),
        foldlM_line_cons (Parse.line_interp _ (show m.interp < 2 ^ 32 by omega)),
        foldlM_line_cons (Parse.line_tex _ h.tex),
        foldlM_line_cons (Parse.line_texdim _ h.texdim rfl),
        foldlM_line_cons (Parse.line_consts _ h.consts rfl),
        foldlM_line_cons (Parse.line_cruns _ hsep hregs rfl),
        foldlM_line_cons (Parse.line_streams _ hbounds),
        foldlM_line_cons (Parse.line_kill _ kill)]
      refine (hfinish _ rfl rfl rfl rfl rfl rfl (by simpa using hlen) rfl).trans ?_
      simp [StageShader.ofMeta, hm]
  | ps writesDepth kills colors =>
      rw [hm] at hstage
      obtain ⟨rfl, hdepth, hkills⟩ := hstage
      simp only [stageLines, List.cons_append, List.nil_append]
      rw [foldlM_line_cons (Parse.line_hash _ hash),
        foldlM_line_cons (Parse.line_interp _ (show m.interp < 2 ^ 32 by omega)),
        foldlM_line_cons (Parse.line_tex _ h.tex),
        foldlM_line_cons (Parse.line_texdim _ h.texdim rfl),
        foldlM_line_cons (Parse.line_consts _ h.consts rfl),
        foldlM_line_cons (Parse.line_cruns _ hsep hregs rfl),
        foldlM_line_cons (Parse.line_writes_depth _ hdepth),
        foldlM_line_cons (Parse.line_kills _ hkills),
        foldlM_line_cons (Parse.line_colors _ colors)]
      refine (hfinish _ rfl rfl rfl rfl rfl rfl (by simp) rfl).trans ?_
      simp [StageShader.ofMeta, hm, VariantSidecar.eligible]

/-! ### What the translator returns -/

/-- The parts of a meta and where they come from. -/
theorem translate_cases {stage : Stage} {noPack : Bool} {blocks : List Block} {uses : List Use}
    {slots : List (Option ℕ)} {m : Meta} (h : translate stage noPack blocks uses = .ok (slots, m)) :
    ∃ t, translateTwice stage noPack uses = .ok (slots, t, m.cruns) ∧ m.tex = t.texSlots ∧
      m.texdim = t.texDimensions ∧ m.consts = t.maxConst + 1 ∧ m.interp ≤ 16 ∧
      (stage = .vs → ∃ kill, m.stageMeta = .vs t.streams kill) ∧
      (stage = .ps → ∃ writesDepth kills colors, m.stageMeta = .ps writesDepth kills colors ∧
        writesDepth ≤ 1 ∧ kills ≤ 1) := by
  cases stage with
  | vs =>
      obtain ⟨⟨slots', t, constRuns⟩, htwice, h⟩ := bind_eq_ok.1 h
      obtain ⟨rfl, rfl⟩ := Prod.mk.inj (Except.ok.inj h)
      exact ⟨t, htwice, rfl, rfl, rfl, min_le_left _ _, fun _ => ⟨_, rfl⟩, nofun⟩
  | ps =>
      obtain ⟨⟨slots', t, constRuns⟩, htwice, h⟩ := bind_eq_ok.1 h
      obtain ⟨rfl, rfl⟩ := Prod.mk.inj (Except.ok.inj h)
      refine ⟨t, htwice, rfl, rfl, rfl, min_le_right _ _, nofun, fun _ => ⟨_, _, _, rfl, ?_, ?_⟩⟩ <;>
        split <;> omega

/-- No run is printed only for a shader without constants. -/
theorem consts_of_no_runs {t : Translator} (hi : t.Inv) {noPack : Bool}
    (h : (packedConstantMap noPack t.constUsed t.constAll).2 = []) : t.maxConst + 1 = 0 := by
  rw [packedConstantMap] at h
  split at h
  · simp at h
  · rename_i hpack
    have hall : t.constAll = false := by
      rw [Bool.or_eq_true, not_or] at hpack
      exact Bool.eq_false_iff.2 hpack.1
    have hused : t.constUsed = ∅ := by
      rw [hall] at h
      obtain ⟨hruns, -⟩ := constantRuns_spec t.constUsed (show 1 ≤ 8 by omega) 8
      refine Finset.eq_empty_of_forall_notMem fun c hc => ?_
      obtain ⟨s, hs, -⟩ := hruns.covers c hc
      simp only at h
      rw [h] at hs
      exact List.not_mem_nil hs
    rw [hi.noConst hused hall]
    rfl

/-- The runs of a shader that names no register above `c255`. -/
theorem runs_of_consts_le {t : Translator} (hi : t.Inv) (noPack : Bool)
    (h : t.maxConst + 1 ≤ 256) :
    Separated (packedConstantMap noPack t.constUsed t.constAll).2 ∧
      ∀ s ∈ (packedConstantMap noPack t.constUsed t.constAll).2, s.2 < 256 := by
  cases hall : t.constAll with
  | true =>
      obtain ⟨hsep, hlt, -⟩ := packedConstantMap_runs noPack true
        (show ∀ c ∈ (∅ : Finset ℕ), c < 256 by simp)
      exact ⟨hsep, hlt⟩
  | false =>
      have hused : ∀ c ∈ t.constUsed, c < 256 := by
        intro c hc
        have := hi.constUpper hall c hc
        omega
      obtain ⟨hsep, hlt, -⟩ := packedConstantMap_runs noPack false hused
      exact ⟨hsep, hlt⟩

/-- What the translator returns is well formed, when its numbers fit. -/
theorem translate_wellFormed {stage : Stage} {noPack : Bool} {blocks : List Block}
    {uses : List Use} {slots : List (Option ℕ)} {m : Meta}
    (h : translate stage noPack blocks uses = .ok (slots, m))
    (htex : ∀ fc ∈ m.tex, 0 ≤ fc ∧ fc < 2 ^ 32) (hconsts : m.consts ≤ 256) :
    m.WellFormed (stage = .vs) := by
  obtain ⟨t, htwice, htexSlots, htexdim, hc, hinterp, hvs, hps⟩ := translate_cases h
  obtain ⟨rfl, hi, -, hruns⟩ := translateTwice_spec htwice
  rw [hc] at hconsts
  have hlower := hi.constLower
  obtain ⟨hsep, hlt⟩ := runs_of_consts_le hi noPack hconsts
  refine ⟨hinterp, htex, ?_, ?_, ?_, by omega, hruns ▸ hsep, hruns ▸ hlt, fun he => ?_, ?_⟩
  · have hlimit := hi.textureLimit
    rw [htexSlots]
    cases hs : t.stage <;> rw [hs] at hlimit <;> simpa [slotLimit] using hlimit
  · rw [htexdim, htexSlots, hi.sameLength]
  · rw [htexdim]
    exact hi.dimensions
  · rw [hc]
    exact consts_of_no_runs hi (hruns ▸ he)
  · cases hs : t.stage with
    | vs =>
        obtain ⟨kill, hm⟩ := hvs hs
        rw [hm]
        exact ⟨rfl, hi.streamLimit, hi.streamBounds⟩
    | ps =>
        obtain ⟨writesDepth, kills, colors, hm, hle⟩ := hps hs
        rw [hm]
        exact ⟨rfl, hle⟩

/-- No two textures are bound to one slot: the slots are numbered on from the base. -/
theorem nodup_bindTextures (shader : StageShader) (slotBase : ℕ) :
    ((bindTextures shader slotBase).map Binding.slot).Nodup := by
  have hslots : (bindTextures shader slotBase).map Binding.slot =
      ((shader.textureFetchConstants.zip shader.textureDimensions).zipIdx.map Prod.snd).map
        (slotBase + ·) := by
    rw [bindTextures, List.map_map, List.map_map]
    rfl
  rw [hslots, List.zipIdx_map_snd]
  refine List.Nodup.map (fun a b hab => ?_) List.nodup_range'
  exact Nat.add_left_cancel hab

/-- **A sidecar says what the translator recorded.**  Take whatever the
translator returns for a shader whose fetch constants and constant registers are
in range.  `ParseMeta` accepts the printed sidecar and finds the hash, the
interpolators, the fetch constants with their dimensions, the constant runs, the
vertex streams, and of a pixel shader whether it writes depth and whether it
does neither that nor kill; and each fetch of the body reads the slot that its
fetch constant is bound to, each vertex fetch the stream it names. -/
theorem sidecar_roundTrip (hash : ShaderHash) (stage : Stage) (noPack : Bool)
    (blocks : List Block) (uses : List Use) (slots : List (Option ℕ)) (m : Meta)
    (h : translate stage noPack blocks uses = .ok (slots, m))
    (htex : ∀ fc ∈ m.tex, 0 ≤ fc ∧ fc < 2 ^ 32) (hconsts : m.consts ≤ 256) :
    ∃ shader, parseMeta (stage = .vs) (writeSidecar hash.text m) = some shader ∧
      hexHash shader.hash = hash.text ∧
      shader.interpolators = m.interp ∧
      shader.textureFetchConstants.map Nat.cast = m.tex ∧
      shader.textureDimensions = m.texdim ∧
      shader.constantCount = m.consts ∧
      shader.constantRuns = m.cruns.map .ofSpan ∧
      (match m.stageMeta with
        | .vs streams _ =>
            shader.streams.map (fun s => (⟨s.fetchConstant, s.strideDwords⟩ : Stream)) = streams
        | .ps writesDepth kills _ =>
            (shader.writesDepth = true ↔ writesDepth = 1) ∧
              (shader.noAlphaTestEligible = true ↔ kills = 0 ∧ writesDepth = 0)) ∧
      ((bindTextures shader (runtimeSlotBase (stage = .vs))).map Binding.slot).Nodup ∧
      (∀ (i : ℕ) (op : TexOp) (fc : ℤ), uses[i]? = some (.tfetch op fc) → ∃ slot, slots[i]? = some (some slot) ∧
        ⟨slot, fc.toNat, op.dimension⟩ ∈
          bindTextures shader (runtimeSlotBase (stage = .vs))) ∧
      ∀ (i : ℕ) (vf stride : ℤ), uses[i]? = some (.vfetch vf stride) → ∃ k, slots[i]? = some (some k) ∧
        (stage = .vs → shader.streams[k]? = some ⟨vf.toNat, stride.toNat⟩) := by
  have hwf := translate_wellFormed h htex hconsts
  obtain ⟨t, htwice, htexSlots, htexdim, -, -, hstage, -⟩ := translate_cases h
  obtain ⟨rfl, hi, hnames, -⟩ := translateTwice_spec htwice
  refine ⟨_, parseMeta_writeSidecar hash hwf, hash.hexHash_hashValue, rfl, ?_, rfl,
    Int.toNat_of_nonneg hwf.consts.1, rfl, ?_, nodup_bindTextures _ _, ?_, ?_⟩
  · show (m.tex.map Int.toNat).map Nat.cast = m.tex
    rw [List.map_map]
    exact (List.map_congr_left fun fc hfc => Int.toNat_of_nonneg (htex fc hfc).1).trans
      (List.map_id _)
  · have hs := hwf.stage
    cases hm : m.stageMeta with
    | vs streams kill =>
        rw [hm] at hs
        simp only [StageShader.ofMeta, hm, List.map_map]
        refine (List.map_congr_left fun s hmem => ?_).trans (List.map_id _)
        obtain ⟨hvf, hstride⟩ := hs.2.2 s hmem
        show (⟨(s.vf.toNat : ℤ), (s.stride.toNat : ℤ)⟩ : Stream) = s
        rw [Int.toNat_of_nonneg hvf.1, Int.toNat_of_nonneg hstride.1]
    | ps writesDepth kills colors =>
        simp [StageShader.ofMeta, hm]
  · intro i op fc huse
    obtain ⟨hi', huse⟩ := List.getElem?_eq_some_iff.1 huse
    have hlt : i < slots.length := hnames.length_eq ▸ hi'
    have hname := hnames.get hi' hlt
    simp only [List.get_eq_getElem, huse] at hname
    obtain ⟨k, hslot, hfc, hdim⟩ := hname
    refine ⟨slotBase t.stage + k, List.getElem?_eq_some_iff.2 ⟨hlt, hslot⟩, ?_⟩
    have hbase : runtimeSlotBase (t.stage = .vs) = slotBase t.stage := by
      cases t.stage <;> rfl
    rw [hbase, bindTextures]
    refine List.mem_map.2 ⟨((fc.toNat, op.dimension), k), List.mem_zipIdx_iff_getElem?.2 ?_, rfl⟩
    refine List.getElem?_zip_eq_some.2 ⟨?_, ?_⟩
    · show (m.tex.map Int.toNat)[k]? = some fc.toNat
      rw [List.getElem?_map, htexSlots, hfc]
      rfl
    · show m.texdim[k]? = some op.dimension
      rw [htexdim, hdim]
  · intro i vf stride huse
    obtain ⟨hi', huse⟩ := List.getElem?_eq_some_iff.1 huse
    have hlt : i < slots.length := hnames.length_eq ▸ hi'
    have hname := hnames.get hi' hlt
    simp only [List.get_eq_getElem, huse] at hname
    obtain ⟨k, hslot, hs⟩ := hname
    refine ⟨k, List.getElem?_eq_some_iff.2 ⟨hlt, hslot⟩, fun hvs => ?_⟩
    obtain ⟨kill, hm⟩ := hstage hvs
    simp only [StageShader.ofMeta, hm, List.getElem?_map, hs, Option.map_some]

/-- The hash of sixteen zeros. -/
def zeroHash : ShaderHash where
  text := List.replicate 16 '0'
  length_eq := rfl
  digits c hc := by
    rw [List.eq_of_mem_replicate hc]
    rfl

/-- The hypotheses are satisfiable: a vertex shader with a cube map and a stream. -/
theorem sidecar_roundTrip_cube :
    ∃ shader, parseMeta true (writeSidecar zeroHash.text
        ⟨1, [3], [4], 0, [], .vs [⟨95, 7⟩] 0⟩) = some shader ∧
      ⟨16, 3, 4⟩ ∈ bindTextures shader 16 := by
  have htranslate : translate .vs false [] [.vfetch 95 7, .tfetch .tfetchCube 3] =
      .ok ([some 0, some 16], ⟨1, [3], [4], 0, [], .vs [⟨95, 7⟩] 0⟩) := by
    decide +kernel
  obtain ⟨shader, hparse, -, -, -, -, -, -, -, -, hbind, -⟩ :=
    sidecar_roundTrip zeroHash .vs false [] _ _ _ htranslate (by simp) (by simp)
  obtain ⟨slot, hslot, hmem⟩ := hbind 1 .tfetchCube 3 rfl
  obtain rfl : 16 = slot := by simpa using hslot
  exact ⟨shader, hparse, hmem⟩

/-- Not every meta is recovered as it is: whether a vertex shader kills is not
read back, the fetch constant of `tf-1` comes back as another number, and the
sidecar of a shader that names `c300` is refused. -/
theorem sidecar_not_recovered :
    (∃ m m' : Meta, translate .vs false [] [] = .ok ([], m) ∧
      translate .vs false [] [.writesKill] = .ok ([none], m') ∧ m.stageMeta ≠ m'.stageMeta ∧
      parseMeta true (writeSidecar zeroHash.text m) =
        parseMeta true (writeSidecar zeroHash.text m')) ∧
    (∃ m : Meta, ∃ shader, translate .ps false [] [.tfetch .tfetch2D (-1)] = .ok ([some 0], m) ∧
      m.tex = [-1] ∧ parseMeta false (writeSidecar zeroHash.text m) = some shader ∧
      shader.textureFetchConstants = [2 ^ 32 - 1]) ∧
    ∃ m : Meta, translate .ps false [] [.const 300] = .ok ([none], m) ∧
      parseMeta false (writeSidecar zeroHash.text m) = none := by
  refine ⟨⟨⟨1, [], [], 0, [], .vs [] 0⟩, ⟨1, [], [], 0, [], .vs [] 1⟩, by decide +kernel,
      by decide +kernel, by decide, ?_⟩,
    ⟨⟨0, [-1], [2], 0, [], .ps 0 0 1⟩,
      .ofMeta zeroHash false ⟨0, [2 ^ 32 - 1], [2], 0, [], .ps 0 0 1⟩, by decide +kernel, rfl, ?_, rfl⟩,
    ⟨⟨0, [], [], 301, [(300, 300)], .ps 0 0 1⟩, ?_, ?_⟩⟩
  · decide +kernel
  · decide +kernel
  · decide +kernel
  · decide +kernel

end Sidecar
end BoltsRebuilt
