/-
# A wait that never returns early

`gpu/native/native_precise_wait_policy.h`: `NativeWaitAtLeastNs` and
`NativeWaitAtLeast` (lines 6-40).

A short guest delay waits on a private timer rather than on `Sleep`.  The timer
counts ticks of 100 ns, may signal early and may fail, and nothing keeps the
clock from running backwards.  The wait reads the clock after every signal and
arms the timer again for what is left, rounded up, eight times at most; when it
gives up it returns false and the caller sleeps for the whole duration.

The backend is a parameter: three operations on a state of any type, so that
each answer may depend on everything asked before.  Arithmetic is checked: a
step whose result does not fit its C++ type ends the run without a result.

`dueTime_spec`: what a timer is armed for.  `attempts_spec`: the loop, by
induction on the attempts left.  `waited`: the whole wait, and
`nativeWaitAtLeast_waited` the one in milliseconds.
-/

import Mathlib.Algebra.GroupWithZero.Nat
import Mathlib.Algebra.Ring.Int.Defs
import Mathlib.Tactic.Common
import Mathlib.Data.List.Chain

namespace BoltsRebuilt
namespace PreciseWait

/-- `kNativeWaitMaxNanoseconds`. -/
def nativeWaitMaxNanoseconds : ℕ := (2 ^ 32 - 1) * 1000000

/-- A `uint64_t` result, unless it does not fit. -/
def word64 (x : ℤ) : Option ℕ := if 0 ≤ x ∧ x < 2 ^ 64 then some x.toNat else none

/-- An `int64_t` result, unless it does not fit. -/
def int64 (x : ℤ) : Option ℤ := if -2 ^ 63 ≤ x ∧ x < 2 ^ 63 then some x else none

/-- The backend's operations, each with the state it leaves. -/
structure Backend (β : Type) where
  nowNs : β → UInt64 × β
  ensureTimer : β → Bool × β
  waitRelative : ℤ → β → Bool × β

/-- One call of the backend and its answer. -/
inductive Call
  | nowNs (reading : ℕ)
  | ensureTimer (ok : Bool)
  | waitRelative (due : ℤ) (ok : Bool)
  deriving DecidableEq

/-- A finished call of the policy: what it returns, nothing when a step
overflowed, with the backend's state and the calls it was asked, in order. -/
structure Run (β : Type) where
  result : Option Bool
  backend : β
  calls : List Call

/-- A call made before the others of a run. -/
def Run.after {β : Type} (c : Call) (r : Run β) : Run β := { r with calls := c :: r.calls }

/-- `-ticks`, for what is left of the duration. -/
def dueTime (requested elapsed : ℕ) : Option ℤ := do
  let remaining ← word64 (requested - elapsed)
  let ticks ← word64 (remaining / 100 + if remaining % 100 ≠ 0 then 1 else 0)
  let ticks ← int64 ticks
  int64 (-ticks)

variable {β : Type}

/-- The loop, with `left = 8 - attempt`. -/
def attempts (b : Backend β) (requested start : ℕ) (left previous : ℕ) (s : β) : Run β :=
  let now := (b.nowNs s).1.toNat
  let s := (b.nowNs s).2
  .after (.nowNs now) <|
    if now < previous then ⟨some false, s, []⟩
    else
      match word64 (now - start) with
      | none => ⟨none, s, []⟩
      | some elapsed =>
          if requested ≤ elapsed then ⟨some true, s, []⟩
          else
            match left with
            | 0 => ⟨some false, s, []⟩
            | left + 1 =>
                match dueTime requested elapsed with
                | none => ⟨none, s, []⟩
                | some due =>
                    let (ok, s) := b.waitRelative due s
                    .after (.waitRelative due ok) <|
                      if ok then attempts b requested start left now s else ⟨some false, s, []⟩

/-- `NativeWaitAtLeastNs`. -/
def nativeWaitAtLeastNs (b : Backend β) (requested : UInt64) (s : β) : Run β :=
  if requested = 0 then ⟨some true, s, []⟩
  else if nativeWaitMaxNanoseconds < requested.toNat then ⟨some false, s, []⟩
  else
    let (start, s) := b.nowNs s
    let (ok, s) := b.ensureTimer s
    .after (.nowNs start.toNat) <| .after (.ensureTimer ok) <|
      if ok then attempts b requested.toNat start.toNat 8 start.toNat s else ⟨some false, s, []⟩

/-- `NativeWaitAtLeast`. -/
def nativeWaitAtLeast (b : Backend β) (milliseconds : UInt32) (s : β) : Run β :=
  nativeWaitAtLeastNs b (milliseconds.toUInt64 * 1000000) s

/-! ### What a run asked -/

/-- The clock readings among the calls. -/
def readings (calls : List Call) : List ℕ :=
  calls.filterMap fun c => match c with | .nowNs reading => some reading | _ => none

/-- The due times the timer was armed for. -/
def arms (calls : List Call) : List ℤ :=
  calls.filterMap fun c => match c with | .waitRelative due _ => some due | _ => none

/-- A relative due time of whole ticks, a tick at least, which covers the
remaining time and would not with a tick less. -/
def Covers (remaining : ℕ) (due : ℤ) : Prop :=
  ∃ ticks : ℕ, due = -ticks ∧ 1 ≤ ticks ∧ remaining ≤ ticks * 100 ∧ ticks * 100 < remaining + 100

/-- Every arming of the timer follows a clock reading from which the duration
has not passed, and covers what is left. -/
def ArmsCover (requested start : ℕ) (calls : List Call) : Prop :=
  ∀ pre due ok post, calls = pre ++ .waitRelative due ok :: post →
    ∃ now, (readings pre).getLast? = some now ∧ start ≤ now ∧ now < start + requested ∧
      Covers (start + requested - now) due

/-- A number of 64 bits passes the check as it is. -/
theorem word64_natCast {n : ℕ} (h : n < 2 ^ 64) : word64 n = some n := by
  rw [word64, if_pos ⟨Int.natCast_nonneg n, by exact_mod_cast h⟩, Int.toNat_natCast]

/-- And so does a difference of two. -/
theorem word64_sub {m n : ℕ} (hle : n ≤ m) (h : m < 2 ^ 64) : word64 (m - n) = some (m - n) := by
  rw [← Int.natCast_sub hle]
  exact word64_natCast (by omega)

/-- The timer is armed for what is left, rounded up to whole ticks, and no step
on the way overflows. -/
theorem dueTime_spec {requested elapsed : ℕ} (hreq : requested ≤ nativeWaitMaxNanoseconds)
    (hlt : elapsed < requested) :
    ∃ due, dueTime requested elapsed = some due ∧ Covers (requested - elapsed) due := by
  have hmax : requested < 2 ^ 52 := by
    rw [nativeWaitMaxNanoseconds] at hreq
    omega
  obtain ⟨rem, hrem⟩ : ∃ rem, requested - elapsed = rem := ⟨_, rfl⟩
  obtain ⟨ticks, hticks⟩ : ∃ ticks, (rem / 100 + if rem % 100 ≠ 0 then 1 else 0) = ticks := ⟨_, rfl⟩
  have hround : 1 ≤ ticks ∧ rem ≤ ticks * 100 ∧ ticks * 100 < rem + 100 := by
    split at hticks <;> omega
  have hword : word64 ((rem : ℤ) / 100 + if rem % 100 ≠ 0 then 1 else 0) = some ticks := by
    have hcast : ((rem : ℤ) / 100 + if rem % 100 ≠ 0 then 1 else 0) = (ticks : ℤ) := by
      rw [← hticks]
      split <;> push_cast <;> rfl
    rw [hcast]
    exact word64_natCast (by omega)
  have hint : int64 ticks = some (ticks : ℤ) := if_pos (by omega)
  have hneg : int64 (-(ticks : ℤ)) = some (-(ticks : ℤ)) := if_pos (by omega)
  refine ⟨-(ticks : ℤ), ?_, ticks, rfl, hrem ▸ hround⟩
  rw [dueTime, word64_sub hlt.le (by omega), hrem]
  calc
    _ = (word64 ((rem : ℤ) / 100 + if rem % 100 ≠ 0 then 1 else 0)).bind fun ticks =>
          (int64 ticks).bind fun ticks => int64 (-ticks) := Option.bind_some ..
    _ = (int64 ticks).bind fun ticks => int64 (-ticks) := by rw [hword, Option.bind_some]
    _ = some (-(ticks : ℤ)) := by rw [hint, Option.bind_some, hneg]

/-- A reading of the clock is one of the readings. -/
@[simp] theorem readings_nowNs (n : ℕ) (calls : List Call) :
    readings (.nowNs n :: calls) = n :: readings calls := rfl

/-- Making the timer reads no clock. -/
@[simp] theorem readings_ensureTimer (ok : Bool) (calls : List Call) :
    readings (.ensureTimer ok :: calls) = readings calls := rfl

/-- Nor does waiting on it. -/
@[simp] theorem readings_waitRelative (due : ℤ) (ok : Bool) (calls : List Call) :
    readings (.waitRelative due ok :: calls) = readings calls := rfl

/-- A last reading stays the last behind calls made before. -/
theorem getLast?_readings_cons (c : Call) {calls : List Call} {last : ℕ}
    (h : (readings calls).getLast? = some last) : (readings (c :: calls)).getLast? = some last := by
  cases c with
  | nowNs n => rw [readings_nowNs, List.getLast?_cons, h, Option.getD_some]
  | ensureTimer ok => exact h
  | waitRelative due ok => exact h

/-- Without a timer armed, nothing has to be covered. -/
theorem ArmsCover.of_no_arms {requested start : ℕ} {calls : List Call} (h : arms calls = []) :
    ArmsCover requested start calls := by
  rintro pre due ok post rfl
  have hmem : due ∈ arms (pre ++ .waitRelative due ok :: post) :=
    List.mem_filterMap.2 ⟨.waitRelative due ok, by simp, rfl⟩
  rw [h] at hmem
  exact absurd hmem List.not_mem_nil

/-- A call that arms no timer may come first. -/
theorem ArmsCover.cons {requested start : ℕ} {c : Call} {calls : List Call} (hc : arms [c] = [])
    (h : ArmsCover requested start calls) : ArmsCover requested start (c :: calls) := by
  intro pre due ok post hsplit
  cases pre with
  | nil =>
      obtain ⟨rfl, -⟩ := List.cons_eq_cons.1 hsplit
      exact absurd hc (List.cons_ne_nil due [])
  | cons c' pre =>
      obtain ⟨-, hsplit⟩ := List.cons_eq_cons.1 hsplit
      obtain ⟨now, hlast, hrest⟩ := h pre due ok post hsplit
      exact ⟨now, getLast?_readings_cons _ hlast, hrest⟩

/-- A clock reading from which the duration has not passed may be followed by an
arming that covers what is left. -/
theorem ArmsCover.arm {requested start now : ℕ} {due : ℤ} (ok : Bool) {calls : List Call}
    (hle : start ≤ now) (hlt : now < start + requested) (hdue : Covers (start + requested - now) due)
    (h : ArmsCover requested start calls) :
    ArmsCover requested start (.nowNs now :: .waitRelative due ok :: calls) := by
  intro pre due' ok' post hsplit
  rcases pre with _ | ⟨c, _ | ⟨c', pre⟩⟩
  · simp at hsplit
  · obtain ⟨rfl, ⟨rfl, rfl⟩, rfl⟩ : Call.nowNs now = c ∧ (due = due' ∧ ok = ok') ∧ calls = post := by
      simpa using hsplit
    exact ⟨now, rfl, hle, hlt, hdue⟩
  · simp only [List.cons_append, List.cons.injEq] at hsplit
    obtain ⟨now', hlast, hrest⟩ := h pre due' ok' post hsplit.2.2
    exact ⟨now', getLast?_readings_cons _ (getLast?_readings_cons _ hlast), hrest⟩

/-- What the loop does from a reading on with `left` attempts to go. -/
structure Attempted (requested start previous left : ℕ) (r : Run β) : Prop where
  total : r.result ≠ none
  elapsed : r.result = some true →
    ∃ last, (readings r.calls).getLast? = some last ∧ start + requested ≤ last
  backwards : ¬ (previous :: readings r.calls).IsChain (· ≤ ·) → r.result = some false
  arms_le : (arms r.calls).length ≤ left
  covers : ArmsCover requested start r.calls

/-- A run that ends at its first reading: it gives up, or the time has come. -/
theorem Attempted.last {requested start previous left now : ℕ} {ok : Bool} (s : β)
    (h : ok = true → previous ≤ now ∧ start + requested ≤ now) :
    Attempted requested start previous left (.after (.nowNs now) ⟨some ok, s, []⟩) where
  total := Option.some_ne_none ok
  elapsed hok := ⟨now, rfl, (h (Option.some_inj.1 hok)).2⟩
  backwards hback := by
    cases ok with
    | false => rfl
    | true => exact absurd (List.isChain_pair.2 (h rfl).1) hback
  arms_le := Nat.zero_le left
  covers := .of_no_arms rfl

/-- The loop, by induction on the attempts left: one reads the clock, and arms the
timer if the time has not come. -/
theorem attempts_spec (b : Backend β) {requested start : ℕ}
    (hreq : requested ≤ nativeWaitMaxNanoseconds) (left previous : ℕ) (s : β) (hle : start ≤ previous) :
    Attempted requested start previous left (attempts b requested start left previous s) := by
  induction left generalizing previous s with
  | zero =>
      rw [attempts]
      split
      · exact .last _ fun h => absurd h Bool.false_ne_true
      · rw [word64_sub (by omega) (UInt64.toNat_lt _)]
        dsimp only
        split
        · exact .last _ fun _ => by omega
        · exact .last _ fun h => absurd h Bool.false_ne_true
  | succ left ih =>
      rw [attempts]
      split
      · exact .last _ fun h => absurd h Bool.false_ne_true
      · rename_i hnow
        rw [word64_sub (by omega) (UInt64.toNat_lt _)]
        dsimp only
        split
        · exact .last _ fun _ => by omega
        · rename_i hlt
          obtain ⟨due, hdue, hcovers⟩ := dueTime_spec hreq (not_le.1 hlt)
          rw [hdue]
          dsimp only
          obtain ⟨now, hnow_eq⟩ : ∃ now, (b.nowNs s).1.toNat = now := ⟨_, rfl⟩
          rw [hnow_eq] at hnow hlt hcovers ⊢
          have hcover : Covers (start + requested - now) due := by
            rwa [show start + requested - now = requested - (now - start) by omega]
          cases hok : (b.waitRelative due (b.nowNs s).2).1 with
          | false =>
              rw [if_neg Bool.false_ne_true]
              refine ⟨Option.some_ne_none false, fun h => absurd (Option.some_inj.1 h) Bool.false_ne_true,
                fun _ => rfl, Nat.succ_pos left, ?_⟩
              exact ArmsCover.arm false (by omega) (by omega) hcover (.of_no_arms rfl)
          | true =>
              rw [if_pos rfl]
              have hrest := ih now (b.waitRelative due (b.nowNs s).2).2 (by omega)
              refine ⟨hrest.total, fun h => ?_, fun h => hrest.backwards fun hchain => h ?_,
                Nat.succ_le_succ hrest.arms_le, ?_⟩
              · obtain ⟨last, hlast, hle⟩ := hrest.elapsed h
                exact ⟨last, getLast?_readings_cons _ (getLast?_readings_cons _ hlast), hle⟩
              · exact List.isChain_cons_cons.2 ⟨not_lt.1 hnow, hchain⟩
              · exact ArmsCover.arm true (by omega) (by omega) hcover hrest.covers

/-- What a wait does with a duration: on success the last clock reading is at least the duration
after the first, a reading below the one before it makes the wait fail, the timer is armed eight
times at most, each time for the ticks that cover what is left, and no step overflows. -/
structure Waited (requested : ℕ) (r : Run β) : Prop where
  elapsed : r.result = some true → ∃ first last, (readings r.calls).head? = some first ∧
    (readings r.calls).getLast? = some last ∧ first + requested ≤ last
  backwards : ¬ (readings r.calls).IsChain (· ≤ ·) → r.result = some false
  arms_le : (arms r.calls).length ≤ 8
  covers : ∀ first, (readings r.calls).head? = some first → ArmsCover requested first r.calls
  total : r.result ≠ none

/-- A wait that fails before it arms the timer. -/
theorem Waited.failed (requested : ℕ) (s : β) {calls : List Call} (harms : arms calls = []) :
    Waited requested (⟨some false, s, calls⟩ : Run β) where
  elapsed h := absurd (Option.some_inj.1 h) Bool.false_ne_true
  backwards _ := rfl
  arms_le := by rw [harms]; exact Nat.zero_le 8
  covers _ _ := .of_no_arms harms
  total := Option.some_ne_none false

/-- A wait, whatever the backend: it is refused, or it is the loop from its first reading on. -/
theorem waited (b : Backend β) {requested : UInt64} (hne : requested ≠ 0) (s : β) :
    Waited requested.toNat (nativeWaitAtLeastNs b requested s) := by
  rw [nativeWaitAtLeastNs, if_neg hne]
  split
  · exact .failed _ _ rfl
  · rename_i hmax
    obtain ⟨start, hstart⟩ : ∃ start, (b.nowNs s).1.toNat = start := ⟨_, rfl⟩
    dsimp only
    rw [hstart]
    cases hok : (b.ensureTimer (b.nowNs s).2).1 with
    | false =>
        rw [if_neg Bool.false_ne_true]
        exact .failed _ _ rfl
    | true =>
        rw [if_pos rfl]
        have hloop := attempts_spec b (not_lt.1 hmax) 8 start (b.ensureTimer (b.nowNs s).2).2 le_rfl
        refine ⟨fun h => ?_, fun h => hloop.backwards h, hloop.arms_le, fun first hfirst => ?_,
          hloop.total⟩
        · obtain ⟨last, hlast, hle⟩ := hloop.elapsed h
          exact ⟨start, last, rfl, getLast?_readings_cons _ (getLast?_readings_cons _ hlast), hle⟩
        · obtain rfl : start = first := Option.some_inj.1 hfirst
          exact (hloop.covers.cons rfl).cons rfl

/-- `NativeWaitAtLeast`: no number of milliseconds is refused for its length, and the wait is
that of the nanoseconds. -/
theorem nativeWaitAtLeast_waited (b : Backend β) {milliseconds : UInt32} (hne : milliseconds ≠ 0) (s : β) :
    milliseconds.toNat * 1000000 ≤ nativeWaitMaxNanoseconds ∧
      Waited (milliseconds.toNat * 1000000) (nativeWaitAtLeast b milliseconds s) := by
  have hlt := milliseconds.toNat_lt
  have hnanoseconds : (milliseconds.toUInt64 * 1000000).toNat = milliseconds.toNat * 1000000 := by
    rw [UInt64.toNat_mul, UInt32.toNat_toUInt64]
    exact Nat.mod_eq_of_lt (by simp only [UInt64.toNat_ofNat]; omega)
  have hne' : milliseconds.toUInt64 * 1000000 ≠ 0 := fun hzero => hne <| by
    have hzero := congrArg UInt64.toNat hzero
    rw [hnanoseconds, UInt64.toNat_zero] at hzero
    exact UInt32.toNat_inj.1 ((Nat.mul_eq_zero.1 hzero).resolve_right (by decide))
  constructor
  · rw [nativeWaitMaxNanoseconds]
    omega
  · rw [← hnanoseconds]
    exact waited b hne' s

/-- **The wait does not return early.** Against any backend: a duration above the
limit is refused before the backend is asked anything; on success the last clock
reading is at least the duration after the first; a reading below the one before
it makes the wait fail; the timer is armed eight times at most, each time for the
ticks that cover what is left; and no step overflows. -/
theorem nativeWaitAtLeastNs_correct (b : Backend β) (requested : UInt64) (hne : requested ≠ 0)
    (s : β) :
    (nativeWaitMaxNanoseconds < requested.toNat →
      nativeWaitAtLeastNs b requested s = ⟨some false, s, []⟩) ∧
    ((nativeWaitAtLeastNs b requested s).result = some true →
      ∃ first last, (readings (nativeWaitAtLeastNs b requested s).calls).head? = some first ∧
        (readings (nativeWaitAtLeastNs b requested s).calls).getLast? = some last ∧
        first + requested.toNat ≤ last) ∧
    (¬ (readings (nativeWaitAtLeastNs b requested s).calls).IsChain (· ≤ ·) →
      (nativeWaitAtLeastNs b requested s).result = some false) ∧
    (arms (nativeWaitAtLeastNs b requested s).calls).length ≤ 8 ∧
    (∀ first, (readings (nativeWaitAtLeastNs b requested s).calls).head? = some first →
      ArmsCover requested.toNat first (nativeWaitAtLeastNs b requested s).calls) ∧
    (nativeWaitAtLeastNs b requested s).result ≠ none := by
  have hwaited := waited b hne s
  refine ⟨fun hmax => ?_, hwaited.elapsed, hwaited.backwards, hwaited.arms_le, hwaited.covers, hwaited.total⟩
  rw [nativeWaitAtLeastNs, if_neg hne, if_pos hmax]

/-- A clock with the time as its state, and a timer that wakes on time. -/
def onTime : Backend ℕ where
  nowNs s := (UInt64.ofNat s, s)
  ensureTimer s := (true, s)
  waitRelative due s := (true, s + due.natAbs * 100)

/-- The hypotheses are satisfiable: a wait of a quarter of a millisecond arms the timer once, for
2500 ticks, and succeeds. -/
theorem nativeWaitAtLeastNs_short :
    (nativeWaitAtLeastNs onTime 250000 1000).result = some true ∧
      arms (nativeWaitAtLeastNs onTime 250000 1000).calls = [-2500] ∧
      (arms (nativeWaitAtLeastNs onTime 250000 1000).calls).length ≤ 8 :=
  ⟨by decide +kernel, by decide +kernel,
    (nativeWaitAtLeastNs_correct onTime 250000 (by decide) 1000).2.2.2.1⟩

end PreciseWait
end BoltsRebuilt
