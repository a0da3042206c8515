/-
# Vertex fetches and the address they share

tools/ucode2hlsl.py: `stream_slot` (lines 258-269), `emit_vfetch` (lines 611-654),
`emit_instruction` (lines 765-786) and the declarations of `vfetch_addrs` (lines 903-904).

A `vfetch_full` computes the address of a vertex; a `vfetch_mini` after it reads another
place of the same vertex.  In the translated shader every full has a variable of its own,
declared `0u` at function scope, and a mini reads the variable of the full before it in
the text (`last_vfetch`).  The comment there says that "a full that was skipped leaves
the stale address the hardware would have left": the hardware has one address, that of
the full that ran last.  A skipped full leaves its own variable at zero instead.

`mini_address_iff` says for every run when the two agree.

What an instruction other than a vertex fetch does, how an index is read, what a stream
makes of it and what a fetch does with its address are the machine's (`FetchMachine`).
The checks of a fetch's destination are left out: a shader that passes here may still be
refused for one.
-/

import BoltsRebuilt.Sidecar.Slots
import BoltsRebuilt.Ucode.ControlFlow
import Mathlib.Data.BitVec

namespace BoltsRebuilt
namespace Ucode

/-! ### Emission -/

/-- `ins.opts.get`. -/
def Instr.option (ins : Instr) (name : String) : Option String :=
  (ins.opts.find? (·.1 = name)).map (·.2)

/-- `FORMAT_FETCH`. -/
def formatFetch : List (String × String × ℕ) :=
  [("FMT_32_FLOAT", "FetchF32", 1), ("FMT_32_32_FLOAT", "FetchF32", 2),
    ("FMT_32_32_32_FLOAT", "FetchF32", 3), ("FMT_32_32_32_32_FLOAT", "FetchF32", 4),
    ("FMT_16_16_FLOAT", "FetchF16x2", 0), ("FMT_16_16_16_16_FLOAT", "FetchF16x4", 0),
    ("FMT_2_10_10_10", "Fetch2_10_10_10", 0), ("FMT_8_8_8_8", "Fetch8_8_8_8", 0),
    ("FMT_16_16", "Fetch16_16", 0), ("FMT_16_16_16_16", "Fetch16_16_16_16", 0),
    ("FMT_11_11_10", "Fetch11_11_10", 0), ("FMT_10_11_11", "Fetch10_11_11", 0),
    ("FMT_32", "Fetch32x4Int", 1), ("FMT_32_32", "Fetch32x4Int", 2),
    ("FMT_32_32_32_32", "Fetch32x4Int", 4)]

/-- The checks of `operand` on a source. -/
def sourceOperand (text : String) : Except Error Operand :=
  match matchReg text with
  | none => .error (.notSupported ("operand " ++ text))
  | some m =>
    if m.reg.isSource = false then .error (.notSupported ("export as source " ++ text))
    else if m.swizzle.isSome ∧ (m.letters [] = [] ∨ (m.letters []).any (component? · = none)) then
      .error (.notSupported ("source swizzle " ++ text))
    else .ok m

/-- The index a full reads: its operand, and whether it is rounded. -/
structure FetchIndex where
  operand : Operand
  rounded : Bool
  deriving DecidableEq, Repr

/-- The statements of a vertex fetch: the address variable, by its place in `vfetch_addrs`, and for a
full the index it is computed from. -/
structure VertexFetch where
  index : Option FetchIndex
  base : ℕ
  stream : ℕ
  stride : ℤ
  offset : ℤ
  fn : String
  count : ℕ
  signed : Bool
  normalized : Bool
  expAdjust : ℤ
  dest : Option String
  deriving DecidableEq, Repr

/-- The fields of the translator `emit_vfetch` reads and writes. -/
structure FetchEmitter where
  translator : Sidecar.Translator
  vfetchAddrs : ℕ := 0
  lastVfetch : Option (ℕ × ℕ × ℤ) := none

/-- The refusals of `stream_slot`. -/
def slotError : Sidecar.Error → Error
  | .notSupported message => .notSupported message
  | .keyError _ => .indexError

/-- A full: the stream, and the variable that gets the address. -/
def emitFull (e : FetchEmitter) (ins : Instr) :
    Except Error (FetchIndex × (ℕ × ℕ × ℤ) × FetchEmitter) := do
  match ins.srcs with
  | index :: source :: _ =>
    let operand ← sourceOperand index
    let constant ← pyInt (source.toList.drop 2)
    let stride ← pyInt ((ins.option "Stride").getD "0").toList
    match e.translator.streamSlot (95 - constant) stride with
    | .error error => throw (slotError error)
    | .ok (stream, translator) =>
      let last := (stream, e.vfetchAddrs, stride)
      return (⟨operand, (ins.option "RoundIndex").getD "false" = "true"⟩, last,
        { translator, vfetchAddrs := e.vfetchAddrs + 1, lastVfetch := some last })
  | _ => throw (.notSupported "vfetch_full operands")

/-- The two branches of `emit_vfetch`: a full makes a new address, a mini uses the last one. -/
def emitAddress (e : FetchEmitter) (ins : Instr) :
    Except Error (Option FetchIndex × (ℕ × ℕ × ℤ) × FetchEmitter) :=
  if ins.op = "vfetch_full" then do
    let (index, last, e) ← emitFull e ins
    return (some index, last, e)
  else
    match e.lastVfetch with
    | none => .error (.notSupported "vfetch_mini without vfetch_full")
    | some last => .ok (none, last, e)

/-- `emit_vfetch`. -/
def emitVfetch (e : FetchEmitter) (ins : Instr) : Except Error (VertexFetch × FetchEmitter) := do
  let format := ins.option "DataFormat"
  match formatFetch.find? (some ·.1 = format) with
  | none => throw (.notSupported ("vertex format " ++ format.getD "None"))
  | some (_, fn, count) =>
    let offset ← pyInt ((ins.option "Offset").getD "0").toList
    let (index, (stream, base, stride), e) ← emitAddress e ins
    let expAdjust ← pyInt ((ins.option "ExpAdjust").getD "0").toList
    return ({ index, base, stream, stride, offset, fn, count
              signed := (ins.option "Signed").getD "false" = "true"
              normalized := (ins.option "NumFormat").getD "" ≠ "integer"
              expAdjust, dest := ins.dest }, e)

/-- `ins.op.startswith("vfetch")`. -/
def Instr.isVfetch (ins : Instr) : Bool := (Text.dropPrefix? "vfetch".toList ins.op.toList).isSome

/-- The fetch a line of the body is, in the order of the text. -/
def emitFetchLine (e : FetchEmitter) : Line → Except Error (Option VertexFetch × FetchEmitter)
  | .instr _ g =>
      if g.ins.isVfetch then do
        let (fetch, e) ← emitVfetch e g.ins
        return (some fetch, e)
      else .ok (none, e)
  | _ => .ok (none, e)

/-- The lines of the body with their fetches. -/
def emitFetches (e : FetchEmitter) : List Line → Except Error (List (Line × Option VertexFetch))
  | [] => .ok []
  | line :: lines => do
      let (fetch, e) ← emitFetchLine e line
      let rest ← emitFetches e lines
      return (line, fetch) :: rest

/-- The body of a vertex shader with its fetches. -/
def translateFetches (blocks : List Block) : Except Error (List (Line × Option VertexFetch)) := do
  let body ← translateBody blocks
  emitFetches { translator := { stage := .vs, constMap := none } } body.lines

/-! ### Meaning -/

/-- A machine of arbitrary state, with the functions of the prelude a vertex fetch calls. -/
structure FetchMachine (σ : Type*) where
  p0 : σ → Bool
  boolConst : ℤ → Bool
  /-- an instruction that is no vertex fetch, with its predicate -/
  exec : Group → σ → σ
  /-- `uint(floor(index))` -/
  index : FetchIndex → σ → BitVec 32
  /-- `StreamAddress` -/
  streamAddress : ℕ → BitVec 32 → BitVec 32
  /-- the fetch from an address, with the write to the destination -/
  fetch : VertexFetch → BitVec 32 → σ → σ

variable {σ : Type*} (M : FetchMachine σ)

/-- A shader with its address variables, and the fetches executed so far: each with the value of its
variable when it reads. -/
structure FetchState (σ : Type*) where
  regs : σ
  vars : ℕ → BitVec 32
  log : List (VertexFetch × BitVec 32)

/-- Where a fetch reads when its variable has a value. -/
def VertexFetch.address (fetch : VertexFetch) (base : BitVec 32) : BitVec 32 :=
  base + BitVec.ofInt 32 (fetch.offset * 4)

/-- The statements of a fetch. -/
def FetchState.fetch (s : FetchState σ) (f : VertexFetch) : FetchState σ :=
  let vars := match f.index with
    | some index => Function.update s.vars f.base (M.streamAddress f.stream (M.index index s.regs))
    | none => s.vars
  { regs := M.fetch f (f.address (vars f.base)) s.regs
    vars
    log := s.log ++ [(f, vars f.base)] }

/-- The machine at a line. -/
def FetchMachine.atLine (fetch : Option VertexFetch) : Machine (FetchState σ) where
  p0 s := M.p0 s.regs
  boolConst := M.boolConst
  exec g s :=
    match fetch with
    | none => { s with regs := M.exec g s.regs }
    | some f => if predHolds (M.p0 s.regs) g.ins.pred then s.fetch M f else s

/-- Run the lines. -/
def runFetches (lines : List (Line × Option VertexFetch)) (h : Hlsl (FetchState σ)) :
    Hlsl (FetchState σ) :=
  lines.foldl (fun h line => h.step (M.atLine line.2) line.1) h

/-- The start of a shader: every address is declared zero. -/
def FetchState.init (regs : σ) : FetchState σ := ⟨regs, fun _ => 0, []⟩

/-- The fetches executed by a shader. -/
def executedFetches (lines : List (Line × Option VertexFetch)) (regs : σ) :
    List (VertexFetch × BitVec 32) :=
  (runFetches M lines (.init (.init regs))).st.log

/-! ### The address of the full that ran last -/

/-- The address the most recent full of a log computed. -/
def lastFull (log : List (VertexFetch × BitVec 32)) : Option (BitVec 32) :=
  (log.reverse.find? fun p => p.1.index.isSome).map (·.2)

/-- Whether the full that owns an address variable has been executed. -/
def FullRan (log : List (VertexFetch × BitVec 32)) (base : ℕ) : Prop :=
  ∃ p ∈ log, p.1.index.isSome ∧ p.1.base = base

section Emission

variable {e e' : FetchEmitter} {fetch : Option VertexFetch} {f : VertexFetch}

/-- A full fetch takes the next address variable and becomes the last one. -/
theorem emitFull_ok {ins : Instr} {index : FetchIndex} {last : ℕ × ℕ × ℤ}
    (h : emitFull e ins = .ok (index, last, e')) :
    last.2.1 = e.vfetchAddrs ∧ e'.vfetchAddrs = e.vfetchAddrs + 1 ∧ e'.lastVfetch = some last := by
  unfold emitFull at h
  split at h
  · obtain ⟨operand, -, h⟩ := Fallible.bind_eq_ok.1 h
    obtain ⟨constant, -, h⟩ := Fallible.bind_eq_ok.1 h
    obtain ⟨stride, -, h⟩ := Fallible.bind_eq_ok.1 h
    split at h
    · cases h
    · cases h
      exact ⟨rfl, rfl, rfl⟩
  · cases h

/-- What a fetch is: a full with a new variable, or a mini with that of the last full. -/
theorem emitVfetch_ok {ins : Instr} (h : emitVfetch e ins = .ok (f, e')) :
    (f.index.isSome ∧ f.base = e.vfetchAddrs ∧ e'.vfetchAddrs = e.vfetchAddrs + 1 ∧
      ∃ last, e'.lastVfetch = some last ∧ last.2.1 = f.base) ∨
    (f.index = none ∧ e' = e ∧ ∃ last, e.lastVfetch = some last ∧ last.2.1 = f.base) := by
  unfold emitVfetch at h
  dsimp only at h
  split at h
  · cases h
  next fn count _ =>
    obtain ⟨offset, -, h⟩ := Fallible.bind_eq_ok.1 h
    obtain ⟨⟨index, ⟨stream, base, stride⟩, e₁⟩, hindex, h⟩ := Fallible.bind_eq_ok.1 h
    obtain ⟨expAdjust, -, h⟩ := Fallible.bind_eq_ok.1 h
    cases h
    unfold emitAddress at hindex
    split at hindex
    · obtain ⟨⟨index', last, e₂⟩, hfull, hindex⟩ := Fallible.bind_eq_ok.1 hindex
      cases hindex
      obtain ⟨hbase, haddrs, hlast⟩ := emitFull_ok hfull
      exact .inl ⟨rfl, hbase, haddrs, _, hlast, rfl⟩
    · split at hindex
      · cases hindex
      next last hlast =>
        cases hindex
        exact .inr ⟨rfl, rfl, _, hlast, rfl⟩

/-- A line that is no fetch emits nothing; one that is takes a new variable or, as a mini, that of
the last full fetch. -/
theorem emitFetchLine_ok {line : Line} (h : emitFetchLine e line = .ok (fetch, e')) :
    (fetch = none ∧ e' = e) ∨ ∃ f, fetch = some f ∧
      ((f.index.isSome ∧ f.base = e.vfetchAddrs ∧ e'.vfetchAddrs = e.vfetchAddrs + 1 ∧
          ∃ last, e'.lastVfetch = some last ∧ last.2.1 = f.base) ∨
        (f.index = none ∧ e' = e ∧ ∃ last, e.lastVfetch = some last ∧ last.2.1 = f.base)) := by
  unfold emitFetchLine at h
  split at h
  · split at h
    · obtain ⟨⟨f, e₁⟩, hfetch, h⟩ := Fallible.bind_eq_ok.1 h
      cases h
      exact .inr ⟨f, rfl, emitVfetch_ok hfetch⟩
    · cases h
      exact .inl ⟨rfl, rfl⟩
  · cases h
    exact .inl ⟨rfl, rfl⟩

/-- The variable of the last full of some lines; `start` is that of the full before them. -/
def precedingFull (start : Option ℕ) (lines : List (Line × Option VertexFetch)) : Option ℕ :=
  lines.foldl (fun base line => match line.2 with
    | some f => if f.index.isSome then some f.base else base
    | none => base) start

/-- A mini reads the variable of the full before it in the text. -/
theorem mini_base {lines : List Line} {out before after : List (Line × Option VertexFetch)}
    {line : Line} (h : emitFetches e lines = .ok out)
    (hout : out = before ++ (line, some f) :: after) (hmini : f.index = none) :
    precedingFull (e.lastVfetch.map (·.2.1)) before = some f.base := by
  induction lines generalizing e out before with
  | nil =>
      cases h
      exact absurd hout (by simp)
  | cons l lines ih =>
      obtain ⟨⟨fetch, e₁⟩, hline, h⟩ := Fallible.bind_eq_ok.1 h
      obtain ⟨rest, hrest, h⟩ := Fallible.bind_eq_ok.1 h
      cases h
      cases before with
      | nil =>
          obtain ⟨hhead, -⟩ := List.cons.inj hout
          cases hhead
          rcases emitFetchLine_ok hline with
            ⟨hnone, -⟩ | ⟨g, hg, ⟨hfull, -⟩ | ⟨-, -, last, hlast, hbase⟩⟩
          · cases hnone
          · cases hg
            rw [hmini] at hfull
            cases hfull
          · cases hg
            rw [precedingFull, List.foldl_nil, hlast, Option.map_some, hbase]
      | cons p before =>
          rw [List.cons_append] at hout
          obtain ⟨rfl, hrestout⟩ := List.cons.inj hout
          have hrec := ih hrest hrestout
          rcases emitFetchLine_ok hline with
            ⟨rfl, rfl⟩ | ⟨g, rfl, ⟨hfull, -, -, last, hlast, hbase⟩ | ⟨hnone, rfl, -⟩⟩
          · exact hrec
          · rw [hlast, Option.map_some, hbase] at hrec
            rw [precedingFull, List.foldl_cons]
            simp only [hfull, if_true]
            exact hrec
          · rw [precedingFull, List.foldl_cons]
            simp only [hnone, Option.isSome_none, Bool.false_eq_true, if_false]
            exact hrec

end Emission

/-! ### The log of a run -/

section Log

variable {log : List (VertexFetch × BitVec 32)} {f : VertexFetch} {a : BitVec 32} {n : ℕ}

/-- After a full fetch the last one is itself. -/
theorem lastFull_full (h : f.index.isSome) : lastFull (log ++ [(f, a)]) = some a := by
  simp [lastFull, h]

/-- After a mini it is the one of before. -/
theorem lastFull_mini (h : f.index = none) : lastFull (log ++ [(f, a)]) = lastFull log := by
  simp [lastFull, h]

/-- A full fetch adds itself to those that ran. -/
theorem fullRan_full (h : f.index.isSome) :
    FullRan (log ++ [(f, a)]) n ↔ FullRan log n ∨ f.base = n := by
  simp [FullRan, or_and_right, exists_or, h]

/-- A mini adds none to the full fetches that ran. -/
theorem fullRan_mini (h : f.index = none) : FullRan (log ++ [(f, a)]) n ↔ FullRan log n := by
  simp [FullRan, or_and_right, exists_or, h]

/-- What is known of the value a mini finds in its variable. -/
def MiniRead (before : List (VertexFetch × BitVec 32)) (f : VertexFetch) (a : BitVec 32) : Prop :=
  (FullRan before f.base → lastFull before = some a) ∧ (¬FullRan before f.base → a = 0)

/-- The state of a run after some lines, beside the translator's after the same lines. -/
structure FetchInv (e : FetchEmitter) (s : FetchState σ) : Prop where
  /-- a full that ran has been emitted -/
  base_lt : ∀ n, FullRan s.log n → n < e.vfetchAddrs
  /-- the variable of a full that has not run is zero -/
  zero : ∀ n, ¬FullRan s.log n → s.vars n = 0
  /-- when the last full of the text has run, it is the full that ran last -/
  last : ∀ last, e.lastVfetch = some last → FullRan s.log last.2.1 →
    lastFull s.log = some (s.vars last.2.1)
  minis : ∀ before f a after, s.log = before ++ (f, a) :: after → f.index = none →
    MiniRead before f a

/-- Before the first line no fetch was made and none has run. -/
theorem FetchInv.init (e : FetchEmitter) (regs : σ) : FetchInv e (.init regs) := by
  refine ⟨fun n h => ?_, fun _ _ => rfl, fun last _ h => ?_, fun before f a after h _ => ?_⟩
  · obtain ⟨p, hp, -⟩ := h
    cases hp
  · obtain ⟨p, hp, -⟩ := h
    cases hp
  · exact absurd h (by simp [FetchState.init])

/-- A change of the registers alone keeps the invariant of the fetches. -/
theorem FetchInv.of_eq {e : FetchEmitter} {s s' : FetchState σ} (h : FetchInv e s)
    (hvars : s'.vars = s.vars) (hlog : s'.log = s.log) : FetchInv e s' := by
  obtain ⟨regs, vars, log⟩ := s'
  cases hvars
  cases hlog
  exact ⟨h.base_lt, h.zero, h.last, h.minis⟩

/-- The last entry of a longer log, or one of the log before. -/
theorem minis_concat {log : List (VertexFetch × BitVec 32)} {p : VertexFetch × BitVec 32}
    (h : ∀ before f a after, log = before ++ (f, a) :: after → f.index = none → MiniRead before f a)
    (hp : p.1.index = none → MiniRead log p.1 p.2) :
    ∀ before f a after, log ++ [p] = before ++ (f, a) :: after → f.index = none →
      MiniRead before f a := by
  intro before f a after heq hf
  rcases List.eq_nil_or_concat' after with rfl | ⟨after', q, rfl⟩
  · obtain ⟨rfl, hlast⟩ := List.append_inj' heq rfl
    cases hlast
    exact hp hf
  · rw [← List.cons_append, ← List.append_assoc] at heq
    obtain ⟨hlog, -⟩ := List.append_inj' heq rfl
    exact h before f a after' hlog hf

variable {M : FetchMachine σ} {e e' : FetchEmitter} {s : FetchState σ}

/-- A full is emitted, and executed or not; its variable is new either way. -/
theorem FetchInv.full (h : FetchInv e s) (hfull : f.index.isSome) (hbase : f.base = e.vfetchAddrs)
    (haddrs : e'.vfetchAddrs = e.vfetchAddrs + 1)
    (hlast : ∃ last, e'.lastVfetch = some last ∧ last.2.1 = f.base) :
    FetchInv e' s ∧ FetchInv e' (s.fetch M f) := by
  obtain ⟨last, hlast, hlastbase⟩ := hlast
  have hnew : ¬FullRan s.log f.base := fun hran => by
    have hlt := h.base_lt _ hran
    omega
  constructor
  · refine ⟨fun n hran => ?_, h.zero, fun last' hlast' hran => ?_, h.minis⟩
    · have hlt := h.base_lt n hran
      omega
    · cases hlast.symm.trans hlast'
      rw [hlastbase] at hran
      exact absurd hran hnew
  · obtain ⟨index, hindex⟩ := Option.isSome_iff_exists.1 hfull
    have hvars : (s.fetch M f).vars =
        Function.update s.vars f.base (M.streamAddress f.stream (M.index index s.regs)) := by
      simp only [FetchState.fetch, hindex]
    have hlog : (s.fetch M f).log = s.log ++ [(f, (s.fetch M f).vars f.base)] := rfl
    refine ⟨fun n hran => ?_, fun n hran => ?_, fun last' hlast' _ => ?_, ?_⟩
    · rw [hlog, fullRan_full hfull] at hran
      rcases hran with hran | rfl
      · have hlt := h.base_lt n hran
        omega
      · omega
    · rw [hlog, fullRan_full hfull, not_or] at hran
      rw [hvars, Function.update_of_ne (Ne.symm hran.2)]
      exact h.zero n hran.1
    · cases hlast.symm.trans hlast'
      rw [hlog, lastFull_full hfull, hlastbase]
    · rw [hlog]
      refine minis_concat h.minis fun hnone => ?_
      rw [hindex] at hnone
      cases hnone

/-- A mini is executed, at the address variable of the full before it in the text. -/
theorem FetchInv.mini (h : FetchInv e s) (hmini : f.index = none)
    (hlast : ∃ last, e.lastVfetch = some last ∧ last.2.1 = f.base) : FetchInv e (s.fetch M f) := by
  obtain ⟨last, hlast, hlastbase⟩ := hlast
  have hvars : (s.fetch M f).vars = s.vars := by
    simp only [FetchState.fetch, hmini]
  have hlog : (s.fetch M f).log = s.log ++ [(f, s.vars f.base)] := by
    rw [← hvars]
    rfl
  refine ⟨fun n hran => ?_, fun n hran => ?_, fun last' hlast' hran => ?_, ?_⟩
  · rw [hlog, fullRan_mini hmini] at hran
    exact h.base_lt n hran
  · rw [hlog, fullRan_mini hmini] at hran
    rw [hvars]
    exact h.zero n hran
  · rw [hlog, fullRan_mini hmini] at hran
    rw [hlog, lastFull_mini hmini, hvars]
    exact h.last last' hlast' hran
  · rw [hlog]
    refine minis_concat h.minis fun _ => ⟨fun hran => ?_, h.zero f.base⟩
    rw [← hlastbase] at hran ⊢
    exact h.last last hlast hran

/-- Only a line with an instruction changes the state. -/
theorem Hlsl.step_st {τ : Type*} (machine : Machine τ) (h : Hlsl τ) (line : Line) :
    (h.step machine line).st = h.st ∨
      ∃ i g, line = .instr i g ∧ (h.step machine line).st = machine.exec g h.st := by
  unfold Hlsl.step
  split
  · cases line with
    | instr i g => exact .inr ⟨i, g, rfl, rfl⟩
    | ifNotJump l =>
        left
        dsimp only [Hlsl.enter]
        split <;> rfl
    | ifConds cs =>
        left
        dsimp only [Hlsl.enter]
        split <;> rfl
    | setJumpIf cs l =>
        left
        dsimp only
        split <;> rfl
    | setJump l => exact .inl rfl
    | close => exact .inl rfl
  · cases line <;> exact .inl rfl

/-- One line of the listing keeps the invariant, a fetch or not. -/
theorem FetchInv.line {fetch : Option VertexFetch} {line : Line} {h : Hlsl (FetchState σ)}
    (hinv : FetchInv e h.st) (hline : emitFetchLine e line = .ok (fetch, e')) :
    FetchInv e' (h.step (M.atLine fetch) line).st := by
  rcases emitFetchLine_ok hline with
    ⟨rfl, rfl⟩ | ⟨f, rfl, ⟨hfull, hbase, haddrs, hlast⟩ | ⟨hmini, rfl, hlast⟩⟩
  · rcases h.step_st (M.atLine none) line with hst | ⟨i, g, -, hst⟩
    · rwa [hst]
    · rw [hst]
      exact hinv.of_eq rfl rfl
  · obtain ⟨hskipped, hran⟩ := @FetchInv.full _ f M e e' h.st hinv hfull hbase haddrs hlast
    rcases h.step_st (M.atLine (some f)) line with hst | ⟨i, g, -, hst⟩
    · rwa [hst]
    · rw [hst]
      show FetchInv e' (if predHolds (M.p0 h.st.regs) g.ins.pred then h.st.fetch M f else h.st)
      split
      · exact hran
      · exact hskipped
  · rcases h.step_st (M.atLine (some f)) line with hst | ⟨i, g, -, hst⟩
    · rwa [hst]
    · rw [hst]
      show FetchInv e' (if predHolds (M.p0 h.st.regs) g.ins.pred then h.st.fetch M f else h.st)
      split
      · exact hinv.mini hmini hlast
      · exact hinv

/-- All lines of the listing keep it, by induction on them. -/
theorem FetchInv.run {lines : List Line} {fetches : List (Line × Option VertexFetch)}
    {h : Hlsl (FetchState σ)} (hinv : FetchInv e h.st) (hlines : emitFetches e lines = .ok fetches) :
    ∃ e', FetchInv e' (runFetches M fetches h).st := by
  induction lines generalizing e h fetches with
  | nil =>
      cases hlines
      exact ⟨e, hinv⟩
  | cons line lines ih =>
      obtain ⟨⟨fetch, e₁⟩, hline, hlines⟩ := Fallible.bind_eq_ok.1 hlines
      obtain ⟨rest, hrest, hlines⟩ := Fallible.bind_eq_ok.1 hlines
      cases hlines
      show ∃ e', FetchInv e' (runFetches M rest (h.step (M.atLine fetch) line)).st
      exact ih (hinv.line hline) hrest

end Log

/-- **Where a mini reads.**  In every run of every translated shader, a mini that is executed reads
at the address of the full that ran last, and its own offset, exactly when the full before it in the
text has run, or no full has, or the one that ran last computed the address zero. -/
theorem mini_address_iff {blocks : List Block} {lines : List (Line × Option VertexFetch)}
    (hlines : translateFetches blocks = .ok lines) (regs : σ)
    {before after : List (VertexFetch × BitVec 32)} {f : VertexFetch} {a : BitVec 32}
    (hlog : executedFetches M lines regs = before ++ (f, a) :: after) (hmini : f.index = none) :
    (∀ b, lastFull before = some b → f.address a = f.address b) ↔
      FullRan before f.base ∨ lastFull before = none ∨ lastFull before = some 0 := by
  obtain ⟨body, -, hfetches⟩ := Fallible.bind_eq_ok.1 hlines
  obtain ⟨e, hinv⟩ := @FetchInv.run σ M _ body.lines lines (.init (.init regs)) (.init _ regs) hfetches
  obtain ⟨hran, hskipped⟩ := hinv.minis before f a after hlog hmini
  constructor
  · intro h
    by_cases hfull : FullRan before f.base
    · exact .inl hfull
    cases hlast : lastFull before with
    | none => exact .inr (.inl rfl)
    | some b =>
        have hab : a = b := add_right_cancel (h b hlast)
        rw [← hab, hskipped hfull]
        exact .inr (.inr rfl)
  · rintro (hfull | hnone | hzero) b hb
    · rw [hran hfull] at hb
      cases hb
      rfl
    · rw [hnone] at hb
      cases hb
    · by_cases hfull : FullRan before f.base
      · rw [hran hfull] at hb
        cases hb
        rfl
      · rw [hzero] at hb
        cases hb
        rw [hskipped hfull]

/-- A machine whose predicate is fixed and whose streams start at 100. -/
def flatMachine (p0 : Bool) : FetchMachine Unit where
  p0 _ := p0
  boolConst _ := false
  exec _ _ := ()
  index _ _ := 0
  streamAddress stream _ := 100 + BitVec.ofNat 32 stream
  fetch _ _ _ := ()

/-- A full, a full under `p0`, and a mini. -/
def predicatedFull : List Block :=
  let full (pred : Option Pred) (dest source : String) : Instr :=
    ⟨"vfetch_full", false, some dest, ["r0.x", source],
      [("DataFormat", "FMT_32_FLOAT"), ("Stride", "4")], pred, false⟩
  let mini : Instr :=
    ⟨"vfetch_mini", false, some "r3", [], [("DataFormat", "FMT_32_FLOAT"), ("Offset", "1")], none, false⟩
  [⟨.exec, none, [full none "r1" "vf0", full (some .p0) "r2" "vf1", mini]⟩]

/-- What is executed of it. -/
def predicatedLog (p0 : Bool) : List (VertexFetch × BitVec 32) :=
  match translateFetches predicatedFull with
  | .ok lines => executedFetches (flatMachine p0) lines ()
  | .error _ => []

/-- What the two fetches of the example execute, with the predicate and without it. -/
theorem predicatedLog_eq (p0 : Bool) : ∃ lines, translateFetches predicatedFull = .ok lines ∧
    executedFetches (flatMachine p0) lines () = predicatedLog p0 := by
  have haccepted : (translateFetches predicatedFull).toOption.isSome = true := by decide +kernel
  unfold predicatedLog
  cases h : translateFetches predicatedFull with
  | ok lines => exact ⟨lines, rfl, rfl⟩
  | error error =>
      rw [h] at haccepted
      cases haccepted

/-- The hypotheses are satisfiable: with the predicate set both fulls run, and the mini reads beside
the second. -/
theorem mini_address_iff_predicated : ∃ before f a, predicatedLog true = before ++ [(f, a)] ∧
    f.index = none ∧ f.address a = 105 ∧
      (FullRan before f.base ∨ lastFull before = none ∨ lastFull before = some 0) := by
  obtain ⟨lines, hlines, hlog⟩ := predicatedLog_eq true
  have hfacts : (predicatedLog true).map (fun p => (p.1.index.isSome, p.2, p.1.address p.2)) =
      [(true, 100, 100), (true, 101, 101), (false, 101, 105)] := by decide +kernel
  rcases h : predicatedLog true with _ | ⟨p, _ | ⟨q, _ | ⟨⟨f, a⟩, _ | ⟨_, _⟩⟩⟩⟩ <;>
    rw [h] at hfacts <;> simp at hfacts
  obtain ⟨⟨hp, -, -⟩, ⟨hq, hq2, -⟩, hf, ha, haddress⟩ := hfacts
  rw [h] at hlog
  refine ⟨[p, q], f, a, rfl, hf, haddress, ?_⟩
  rw [← mini_address_iff (flatMachine true) hlines () hlog hf]
  intro b hb
  have hlast : lastFull [p, q] = some a := by
    rw [ha, ← hq2]
    exact @lastFull_full [p] q.1 q.2 hq
  cases hlast.symm.trans hb
  rfl

/-- **A stale address that is lost.**  The second full is skipped; the mini reads at its own offset from
zero, not from the address of the full that ran. -/
theorem mini_stale_address : ∃ lines before f a, translateFetches predicatedFull = .ok lines ∧
    executedFetches (flatMachine false) lines () = before ++ [(f, a)] ∧ f.index = none ∧
      lastFull before = some 100 ∧ f.address 100 = 104 ∧ f.address a = 4 := by
  obtain ⟨lines, hlines, hlog⟩ := predicatedLog_eq false
  have hfacts : (predicatedLog false).map
      (fun p => (p.1.index.isSome, p.2, p.1.address p.2, p.1.address 100)) =
      [(true, 100, 100, 100), (false, 0, 4, 104)] := by decide +kernel
  rcases h : predicatedLog false with _ | ⟨p, _ | ⟨⟨f, a⟩, _ | ⟨_, _⟩⟩⟩ <;>
    rw [h] at hfacts <;> simp at hfacts
  obtain ⟨⟨hp, hp2, -⟩, hf, -, haddress, hexpected⟩ := hfacts
  rw [h] at hlog
  have hlast : lastFull [p] = some p.2 := @lastFull_full [] p.1 p.2 hp
  rw [hp2] at hlast
  exact ⟨lines, [p], f, a, hlines, hlog, hf, hlast, hexpected, haddress⟩

end Ucode
end BoltsRebuilt
