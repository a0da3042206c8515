/-
# Loading the same shader again

src/src/gpu/vendored/include/rex/graphics/d3d12/shader_load_memo.h: `ShaderLoadMemo`,
and its use in `PipelineCache::LoadShader`
(src/src/gpu/vendored/src/graphics/d3d12/pipeline_cache.cpp).

The memo remembers which shader the words at an address were loaded as.  The guest may
change the words at any time, so an entry keeps a copy of them and `Find` compares it
with what is there now; the copy is made from the shader's own words, turned back into
the guest's byte order.

An entry that `Find` can answer with was published since the last `Reset`, nothing was
published in its slot since, and it holds the words it was published with
(`entry_published`); so what `Find` answers with is right (`shaderLoadMemo_sound`).

The counters in `Stats` are left out.
-/

import BoltsRebuilt.Lib.Bytes
import BoltsRebuilt.Lib.History
import Mathlib.Data.BitVec
import Mathlib.Tactic.IntervalCases

namespace BoltsRebuilt
namespace ShaderLoadMemo

/-- `kMaxDwords`. -/
def maxDwords : BitVec 32 := 2048

/-- `Entry`. -/
structure Entry where
  guestWords : ℕ → BitVec 32
  source : BitVec 64
  stage : BitVec 32
  dwords : BitVec 32
  value : BitVec 64

/-- `entries_`. -/
abbrev Memo := ℕ → Entry

/-- `Supports`. -/
def Supports (source : BitVec 64) (stage dwords : BitVec 32) : Prop :=
  source ≠ 0 ∧ stage ≤ 1 ∧ dwords ≠ 0 ∧ dwords ≤ maxDwords

instance (source : BitVec 64) (stage dwords : BitVec 32) : Decidable (Supports source stage dwords) :=
  inferInstanceAs (Decidable (_ ∧ _ ∧ _ ∧ _))

/-- `Slot`. -/
def slot (source : BitVec 64) (stage dwords : BitVec 32) : ℕ :=
  let key := source >>> 2
  let key := key ^^^ dwords.setWidth 64 * 0x9E3779B97F4A7C15
  let key := key ^^^ stage.setWidth 64 <<< 32
  let key := key ^^^ key >>> 33
  let key := key * 0xFF51AFD7ED558CCD
  let key := key ^^^ key >>> 33
  (key &&& 63).toNat

/-- The swap in `Publish`. -/
def guestWord (word : BitVec 32) : BitVec 32 :=
  ((word &&& 0x000000FF) <<< 24) ||| ((word &&& 0x0000FF00) <<< 8) |||
    ((word &&& 0x00FF0000) >>> 8) ||| ((word &&& 0xFF000000) >>> 24)

/-- The first `dwords` words of an entry, as they lie in memory. -/
def Entry.bytes (entry : Entry) (dwords : BitVec 32) : List UInt8 :=
  (List.range dwords.toNat).flatMap fun i => le 4 (entry.guestWords i).toNat

/-- `Find`; the live source is read from the memory. -/
def find (memo : Memo) (memory : Bytes) (source : BitVec 64) (stage dwords : BitVec 32) : BitVec 64 :=
  if ¬Supports source stage dwords then 0
  else
    let entry := memo (slot source stage dwords)
    if entry.value ≠ 0 ∧ entry.source = source ∧ entry.stage = stage ∧ entry.dwords = dwords ∧
        memory.load source.toNat (dwords.toNat * 4) = entry.bytes dwords then entry.value
    else 0

/-- `Publish`; the words are those the pointer points to, when it is not null. -/
def publish (memo : Memo) (source : BitVec 64) (stage dwords : BitVec 32)
    (shaderHostWords : Option (ℕ → BitVec 32)) (shader : BitVec 64) : Bool × Memo :=
  match shaderHostWords with
  | none => (false, memo)
  | some words =>
    if ¬Supports source stage dwords ∨ shader = 0 then (false, memo)
    else
      let guestWords := fun i =>
        if i < dwords.toNat then guestWord (words i)
        else (memo (slot source stage dwords)).guestWords i
      (true, Function.update memo (slot source stage dwords) ⟨guestWords, source, stage, dwords, shader⟩)

/-- `Reset`. -/
def reset (memo : Memo) : Memo := fun i => { memo i with value := 0 }

/-! ### The owner -/

/-- `D3D12Shader`, as far as the memo goes. -/
structure Shader where
  type : BitVec 32
  ucodeDwordCount : BitVec 32
  ucodeDwords : ℕ → BitVec 32

/-- `LoadShader`; `load` is the lookup by hash, with the shader it finds or makes. -/
def loadShader (memoEnabled : Bool) (memo : Memo) (memory : Bytes) (load : BitVec 64 × Shader)
    (shaderType : BitVec 32) (hostAddress : BitVec 64) (dwordCount : BitVec 32) : BitVec 64 × Memo :=
  let cached := if memoEnabled then find memo memory hostAddress shaderType dwordCount else 0
  if cached ≠ 0 then (cached, memo)
  else
    let (shader, object) := load
    if memoEnabled ∧ object.type = shaderType ∧ object.ucodeDwordCount = dwordCount then
      (shader, (publish memo hostAddress shaderType dwordCount (some object.ucodeDwords) shader).2)
    else (shader, memo)

/-! ### Histories -/

/-- What happens to a memo and the memory it looks at. -/
inductive Event where
  | find (source : BitVec 64) (stage dwords : BitVec 32)
  | publish (source : BitVec 64) (stage dwords : BitVec 32) (words : Option (ℕ → BitVec 32))
      (shader : BitVec 64)
  | load (memoEnabled : Bool) (loaded : BitVec 64 × Shader) (type : BitVec 32) (source : BitVec 64)
      (dwords : BitVec 32)
  | reset
  | write (memory : Bytes)

structure State where
  memo : Memo
  memory : Bytes

def State.step (s : State) : Event → State
  | .find .. => s
  | .publish source stage dwords words shader =>
    { s with memo := (ShaderLoadMemo.publish s.memo source stage dwords words shader).2 }
  | .load memoEnabled loaded type source dwords =>
    { s with memo := (loadShader memoEnabled s.memo s.memory loaded type source dwords).2 }
  | .reset => { s with memo := ShaderLoadMemo.reset s.memo }
  | .write memory => { s with memory }

def State.run (s : State) (events : List Event) : State := events.foldl State.step s

/-- An accepted call of `Publish`. -/
structure Publication where
  source : BitVec 64
  stage : BitVec 32
  dwords : BitVec 32
  words : ℕ → BitVec 32
  shader : BitVec 64

namespace Publication

def slot (p : Publication) : ℕ := ShaderLoadMemo.slot p.source p.stage p.dwords

/-- What the slot held before matters only past the words. -/
def entry (p : Publication) (memo : Memo) : Entry :=
  ⟨fun i => if i < p.dwords.toNat then guestWord (p.words i) else (memo p.slot).guestWords i,
    p.source, p.stage, p.dwords, p.shader⟩

def Accepted (p : Publication) : Prop := Supports p.source p.stage p.dwords ∧ p.shader ≠ 0

instance (p : Publication) : Decidable p.Accepted := inferInstanceAs (Decidable (_ ∧ _))

end Publication

/-- What an event publishes. -/
def State.publication (s : State) : Event → Option Publication
  | .publish source stage dwords (some words) shader =>
    let p : Publication := ⟨source, stage, dwords, words, shader⟩
    if p.Accepted then some p else none
  | .load memoEnabled (shader, object) type source dwords =>
    let p : Publication := ⟨source, type, dwords, object.ucodeDwords, shader⟩
    if memoEnabled = true ∧ ShaderLoadMemo.find s.memo s.memory source type dwords = 0 ∧ object.type = type ∧
        object.ucodeDwordCount = dwords ∧ p.Accepted then some p
    else none
  | _ => none

/-! ### Bytes and words -/

/-- A word as the guest reads it, the high byte first. -/
def hostWord (memory : Bytes) (address : ℕ) : ℕ :=
  (memory address).toNat * 16777216 + (memory (address + 1)).toNat * 65536 +
    (memory (address + 2)).toNat * 256 + (memory (address + 3)).toNat

/-- Two words side by side are the first, shifted, and the second. -/
theorem toNat_append_eq {m n : ℕ} (x : BitVec m) (y : BitVec n) :
    (x ++ y).toNat = x.toNat * 2 ^ n + y.toNat := by
  rw [BitVec.toNat_append, ← Nat.shiftLeft_add_eq_or_of_lt y.isLt, Nat.shiftLeft_eq]

/-- The swap puts the bytes of a word in the other order. -/
theorem guestWord_eq (word : BitVec 32) : guestWord word =
    word.extractLsb' 0 8 ++ word.extractLsb' 8 8 ++ word.extractLsb' 16 8 ++ word.extractLsb' 24 8 := by
  refine BitVec.eq_of_getLsbD_eq fun i hi => ?_
  have happend : (word.extractLsb' 0 8 ++ word.extractLsb' 8 8 ++ word.extractLsb' 16 8 ++
      word.extractLsb' 24 8).getLsbD i = _ := BitVec.getLsbD_append
  refine Eq.trans ?_ happend.symm
  rw [BitVec.getLsbD_append, BitVec.getLsbD_append]
  interval_cases i <;> simp [guestWord]

/-- A guest word has its bytes the other way round. -/
theorem toNat_guestWord (word : BitVec 32) : (guestWord word).toNat =
    word.toNat % 256 * 16777216 + word.toNat / 256 % 256 * 65536 + word.toNat / 65536 % 256 * 256 +
      word.toNat / 16777216 := by
  have h := word.isLt
  rw [guestWord_eq, toNat_append_eq, toNat_append_eq, toNat_append_eq]
  simp only [BitVec.extractLsb'_toNat, Nat.shiftRight_eq_div_pow, Nat.reducePow, Nat.div_one]
  omega

/-- Bytes that are those of a swapped word read as the word itself. -/
theorem hostWord_eq {memory : Bytes} {address : ℕ} {word : BitVec 32}
    (h : memory.load address 4 = le 4 (guestWord word).toNat) : hostWord memory address = word.toNat := by
  have hlt := word.isLt
  have hfits : (guestWord word).toNat < 256 ^ 4 := by
    have hword := (guestWord word).isLt
    omega
  have hbytes : ofLe (memory.load address 4) = (guestWord word).toNat := by
    rw [h, ofLe_le, Nat.mod_eq_of_lt hfits]
  have hload : (memory address).toNat + 256 * ((memory (address + 1)).toNat + 256 *
      ((memory (address + 2)).toNat + 256 * ((memory (address + 3)).toNat + 256 * 0))) =
      (guestWord word).toNat := hbytes
  have hbyte0 : word.toNat % 256 < 256 := Nat.mod_lt _ (by decide)
  have hbyte1 : word.toNat / 256 % 256 < 256 := Nat.mod_lt _ (by decide)
  have hbyte2 : word.toNat / 65536 % 256 < 256 := Nat.mod_lt _ (by decide)
  have hbyte3 : word.toNat / 16777216 < 256 := by omega
  have hword : word.toNat = word.toNat % 256 + 256 * (word.toNat / 256 % 256) +
      65536 * (word.toNat / 65536 % 256) + 16777216 * (word.toNat / 16777216) := by omega
  rw [toNat_guestWord] at hload
  rw [hostWord, hword]
  generalize word.toNat % 256 = b0 at *
  generalize word.toNat / 256 % 256 = b1 at *
  generalize word.toNat / 65536 % 256 = b2 at *
  generalize word.toNat / 16777216 = b3 at *
  have h0 := (memory address).toNat_lt
  have h1 := (memory (address + 1)).toNat_lt
  have h2 := (memory (address + 2)).toNat_lt
  have h3 := (memory (address + 3)).toNat_lt
  have hfirst : (memory address).toNat = b3 := by omega
  have hsecond : (memory (address + 1)).toNat = b2 := by omega
  omega

/-- Memory that holds pieces of one length holds each of them in its place. -/
theorem load_eq_flatMap {memory : Bytes} {address width n : ℕ} {piece : ℕ → List UInt8}
    (hlength : ∀ i, (piece i).length = width)
    (h : memory.load address (n * width) = (List.range n).flatMap piece) {i : ℕ} (hi : i < n) :
    memory.load (address + i * width) width = piece i := by
  induction n with
  | zero => omega
  | succ n ih =>
      rw [Nat.succ_mul, Bytes.load_add, List.range_succ, List.flatMap_append, List.flatMap_singleton] at h
      obtain ⟨hinit, hlast⟩ := List.append_inj' h (by rw [Bytes.length_load, hlength])
      rcases Nat.lt_succ_iff_lt_or_eq.1 hi with hlt | rfl
      · exact ih hinit hlt
      · exact hlast

/-! ### What an event does to the memo -/

/-- Publishing stores the entry when it is accepted, and otherwise leaves the memo. -/
theorem publish_eq {memo : Memo} {source : BitVec 64} {stage dwords : BitVec 32} {words : ℕ → BitVec 32}
    {shader : BitVec 64} :
    (publish memo source stage dwords (some words) shader).2 =
      if (Publication.mk source stage dwords words shader).Accepted then
        Function.update memo (slot source stage dwords)
          ((Publication.mk source stage dwords words shader).entry memo)
      else memo := by
  rw [publish]
  by_cases h : Supports source stage dwords
  · by_cases hshader : shader = 0
    · rw [if_pos (.inr hshader), if_neg fun ha => ha.2 hshader]
    · rw [if_neg fun ho => ho.elim (fun hn => hn h) hshader, if_pos ⟨h, hshader⟩]
      rfl
  · rw [if_pos (.inl h), if_neg fun ha => h ha.1]

/-- A shader that is found is the slot's, published for this source, stage and size, with memory as
it was then. -/
theorem find_accepted {memo : Memo} {memory : Bytes} {source : BitVec 64} {stage dwords : BitVec 32}
    (h : find memo memory source stage dwords ≠ 0) :
    (memo (slot source stage dwords)).value = find memo memory source stage dwords ∧
      (memo (slot source stage dwords)).source = source ∧ (memo (slot source stage dwords)).stage = stage ∧
      (memo (slot source stage dwords)).dwords = dwords ∧
      memory.load source.toNat (dwords.toNat * 4) = (memo (slot source stage dwords)).bytes dwords := by
  rw [find] at h ⊢
  split at h
  next => exact absurd rfl h
  next hsupports =>
    rw [if_neg hsupports]
    dsimp only at h ⊢
    split at h
    next hentry =>
      rw [if_pos hentry]
      exact ⟨rfl, hentry.2⟩
    next => exact absurd rfl h

/-- **What an event does.**  Nothing to the memo, or it publishes one entry, or it resets. -/
theorem step_cases (s : State) (e : Event) :
    (e = .reset ∧ (s.step e).memo = reset s.memo) ∨
    (e ≠ .reset ∧ ∃ p, s.publication e = some p ∧ p.Accepted ∧
      (s.step e).memo = Function.update s.memo p.slot (p.entry s.memo)) ∨
    (e ≠ .reset ∧ s.publication e = none ∧ (s.step e).memo = s.memo) := by
  cases e with
  | reset => exact .inl ⟨rfl, rfl⟩
  | find => exact .inr (.inr ⟨nofun, rfl, rfl⟩)
  | write => exact .inr (.inr ⟨nofun, rfl, rfl⟩)
  | publish source stage dwords words shader =>
      cases words with
      | none => exact .inr (.inr ⟨nofun, rfl, rfl⟩)
      | some words =>
          have hmemo : (s.step (.publish source stage dwords (some words) shader)).memo = _ := publish_eq
          by_cases h : (Publication.mk source stage dwords words shader).Accepted
          · rw [if_pos h] at hmemo
            exact .inr (.inl ⟨nofun, _, if_pos h, h, hmemo⟩)
          · rw [if_neg h] at hmemo
            exact .inr (.inr ⟨nofun, if_neg h, hmemo⟩)
  | load memoEnabled loaded type source dwords =>
      obtain ⟨shader, object⟩ := loaded
      have hmemo : (s.step (.load memoEnabled (shader, object) type source dwords)).memo =
          (loadShader memoEnabled s.memo s.memory (shader, object) type source dwords).2 := rfl
      rw [loadShader] at hmemo
      cases memoEnabled with
      | false =>
          refine .inr (.inr ⟨nofun, ?_, hmemo⟩)
          rw [State.publication]
          exact if_neg fun h => Bool.false_ne_true h.1
      | true =>
          by_cases hfind : find s.memo s.memory source type dwords = 0
          · by_cases htype : object.type = type ∧ object.ucodeDwordCount = dwords
            · have hmemo : (s.step (.load true (shader, object) type source dwords)).memo =
                  (publish s.memo source type dwords (some object.ucodeDwords) shader).2 := by
                rw [hmemo]
                simp only [if_true, hfind, ne_eq, not_true, if_false, htype, and_self]
              rw [publish_eq] at hmemo
              by_cases h : (Publication.mk source type dwords object.ucodeDwords shader).Accepted
              · rw [if_pos h] at hmemo
                exact .inr (.inl ⟨nofun, _, if_pos ⟨rfl, hfind, htype.1, htype.2, h⟩, h, hmemo⟩)
              · rw [if_neg h] at hmemo
                exact .inr (.inr ⟨nofun, if_neg fun ha => h ha.2.2.2.2, hmemo⟩)
            · refine .inr (.inr ⟨nofun, if_neg fun ha => htype ⟨ha.2.2.1, ha.2.2.2.1⟩, ?_⟩)
              rw [hmemo]
              simp only [if_true, hfind, ne_eq, not_true, if_false, htype, true_and]
          · refine .inr (.inr ⟨nofun, if_neg fun ha => hfind ha.2.1, ?_⟩)
            rw [hmemo]
            simp only [if_true, hfind, ne_eq, not_false_iff]

/-! ### Runs -/

/-- An entry the memo may answer with: its shader and whose words they are. -/
def Holds (k : ℕ) (entry : Entry) (s : State) : Prop :=
  (s.memo k).value = entry.value ∧ (s.memo k).source = entry.source ∧ (s.memo k).stage = entry.stage ∧
    (s.memo k).dwords = entry.dwords ∧
    ∀ i < entry.dwords.toNat, (s.memo k).guestWords i = entry.guestWords i

/-- An event that leaves slot `k` as it is. -/
def Spares (k : ℕ) (s : State) (e : Event) : Prop :=
  e ≠ .reset ∧ ∀ p, s.publication e = some p → p.slot ≠ k

/-- An event that publishes the words of an entry. -/
def Makes (k : ℕ) (entry : Entry) (s : State) (e : Event) : Prop :=
  ∃ p, s.publication e = some p ∧ p.slot = k ∧ p.source = entry.source ∧ p.stage = entry.stage ∧
    p.dwords = entry.dwords ∧ p.shader = entry.value ∧
    ∀ i < entry.dwords.toNat, guestWord (p.words i) = entry.guestWords i

/-- An entry held after an event was made by it, or was held before and spared. -/
theorem holds_step {k : ℕ} {entry : Entry} (hvalue : entry.value ≠ 0) (s : State) (e : Event)
    (h : Holds k entry (s.step e)) : Makes k entry s e ∨ Holds k entry s ∧ Spares k s e := by
  rcases step_cases s e with ⟨-, hmemo⟩ | ⟨hne, p, hp, -, hmemo⟩ | ⟨hne, hnone, hmemo⟩
  · rw [Holds, hmemo] at h
    exact absurd h.1.symm hvalue
  · by_cases hk : p.slot = k
    · rw [Holds, hmemo, hk, Function.update_self] at h
      obtain ⟨hshader, hsource, hstage, hdwords, hwords⟩ := h
      refine .inl ⟨p, hp, hk, hsource, hstage, hdwords, hshader, fun i hi => ?_⟩
      rw [← hwords i hi]
      have hin : i < p.dwords.toNat := by
        rw [show p.dwords = entry.dwords from hdwords]
        exact hi
      exact (if_pos hin).symm
    · rw [Holds, hmemo, Function.update_of_ne (Ne.symm hk)] at h
      refine .inr ⟨h, hne, fun p' hp' => ?_⟩
      rw [← Option.some.inj (hp.symm.trans hp')]
      exact hk
  · rw [Holds, hmemo] at h
    refine .inr ⟨h, hne, fun p hp => ?_⟩
    rw [hnone] at hp
    cases hp

/-- **An entry was published and nothing has touched its slot since.** -/
theorem entry_published {s : State} (hempty : ∀ k, (s.memo k).value = 0) (events : List Event) {k : ℕ}
    {entry : Entry} (hvalue : entry.value ≠ 0) (h : Holds k entry (s.run events)) :
    ∃ before e after, events = before ++ e :: after ∧ Makes k entry (s.run before) e ∧
      History.Along State.step (Spares k) ((s.run before).step e) after := by
  rcases @History.made_and_kept State Event State.step (fun _ => True) (Holds k entry) (Makes k entry)
      (Spares k) (fun _ _ _ => trivial) (fun s e _ => holds_step hvalue s e) s events trivial h with
    ⟨hstart, -⟩ | h
  · exact absurd (hstart.1.symm.trans (hempty k)) hvalue
  · exact h

/-- **What `Find` answers with.**  After any run from an empty memo, a shader that `Find` answers with
was published for this address, stage and count since the last reset, and its slot not used since;
and the words it was published with are, high byte first, those in memory now.  Where `LoadShader`
published it, these are the words, the type and the count of the shader itself. -/
theorem shaderLoadMemo_sound (s : State) (hempty : ∀ k, (s.memo k).value = 0) (events : List Event)
    (source : BitVec 64) (stage dwords : BitVec 32)
    (hfound : find (s.run events).memo (s.run events).memory source stage dwords ≠ 0) :
    ∃ before e after p, events = before ++ e :: after ∧
      (s.run before).publication e = some p ∧
      p.source = source ∧ p.stage = stage ∧ p.dwords = dwords ∧
      p.shader = find (s.run events).memo (s.run events).memory source stage dwords ∧
      (∀ i < dwords.toNat,
        hostWord (s.run events).memory (source.toNat + i * 4) = (p.words i).toNat) ∧
      History.Along State.step
        (fun s e => e ≠ .reset ∧ ∀ p', s.publication e = some p' → p'.slot ≠ slot source stage dwords)
        ((s.run before).step e) after ∧
      ∀ memoEnabled shader object type source' dwords',
        e = .load memoEnabled (shader, object) type source' dwords' →
        p.shader = shader ∧ object.type = stage ∧ object.ucodeDwordCount = dwords ∧
          object.ucodeDwords = p.words := by
  obtain ⟨hvalue, hsource, hstage, hdwords, hbytes⟩ := find_accepted hfound
  generalize hk : slot source stage dwords = k at *
  generalize hentry : (s.run events).memo k = entry at *
  have hne : entry.value ≠ 0 := by
    rw [hvalue]
    exact hfound
  obtain ⟨before, e, after, hevents, ⟨p, hp, -, hpsource, hpstage, hpdwords, hpshader, hpwords⟩, hafter⟩ :=
    entry_published hempty events hne
      (show Holds k entry (s.run events) by rw [Holds, hentry]; exact ⟨rfl, rfl, rfl, rfl, fun _ _ => rfl⟩)
  refine ⟨before, e, after, p, hevents, hp, hpsource.trans hsource, hpstage.trans hstage,
    hpdwords.trans hdwords, hpshader.trans hvalue, fun i hi => ?_, hafter, ?_⟩
  · refine hostWord_eq ?_
    rw [load_eq_flatMap (fun i => length_le 4 _) hbytes hi, hpwords i (by rw [hdwords]; exact hi)]
  · rintro memoEnabled shader object type source' dwords' rfl
    rw [State.publication] at hp
    split at hp
    next hload =>
      obtain ⟨-, -, htype, hcount, -⟩ := hload
      rw [← Option.some.inj hp] at hpstage hpdwords ⊢
      exact ⟨rfl, htype.trans (hpstage.trans hstage), hcount.trans (hpdwords.trans hdwords), rfl⟩
    next => cases hp

/-- An empty memo, over a memory with the bytes `12 34 56 78` at the address 4096. -/
def oneWord : State where
  memo := fun _ => ⟨fun _ => 0, 0, 0, 0, 0⟩
  memory := fun a => if a = 4096 then 0x12 else if a = 4097 then 0x34 else if a = 4098 then 0x56 else 0x78

/-- The hypotheses are satisfiable: the word `0x12345678` is published for the shader 100 and found
again. -/
theorem shaderLoadMemo_sound_oneWord :
    ∃ p : Publication, p.shader = 100 ∧ (p.words 0).toNat = 0x12345678 := by
  obtain ⟨_, _, _, p, _, _, _, _, _, hshader, hwords, _⟩ :=
    shaderLoadMemo_sound oneWord (fun _ => rfl) [.publish 4096 0 1 (some fun _ => 0x12345678) 100] 4096 0 1
      (by decide +kernel)
  have hfound : find (oneWord.run [.publish 4096 0 1 (some fun _ => 0x12345678) 100]).memo
      (oneWord.run [.publish 4096 0 1 (some fun _ => 0x12345678) 100]).memory 4096 0 1 = 100 := by
    decide +kernel
  exact ⟨p, hshader.trans hfound, (hwords 0 (by decide)).symm⟩

end ShaderLoadMemo
end BoltsRebuilt
