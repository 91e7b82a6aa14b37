/-
# The WASM ranker

`WasmRanker::do_rerank` (`crates/ranker/src/wasm.rs`).  The guest module and wasmtime under it
are parameters: what `alloc` and `rerank` return, what they do to the linear memory, and whether
they trap.

Three integers are the guest's: two addresses and the number of scores it says it has written.
A bad address is an error; a bad number is a panic, or cuts the list of candidates short.  And
the candidates come back in the order they went in, whatever their scores.  `reranks_iff` says
for which guests the result is a ranking.
-/
import ZearchEngine.Float
import ZearchEngine.Lib.Wire
import ZearchEngine.Router

namespace ZearchEngine

open LengthPrefix

/-! ## 1. Rust -/

/-- The end of a call that can also panic. -/
inductive Fallible (α : Type) where
  | ok (a : α)
  | err
  | panic

namespace Fallible

variable {α β : Type}

/-- `x?` and then `f`. -/
protected def bind (x : Fallible α) (f : α → Fallible β) : Fallible β :=
  match x with
  | .ok a => f a
  | .err => .err
  | .panic => .panic

instance : Monad Fallible where
  pure := .ok
  bind := Fallible.bind

/-- A call that returns an error, if it fails. -/
def ofOption : Option α → Fallible α
  | some a => .ok a
  | none => .err

@[simp] theorem ok_bind (a : α) (f : α → Fallible β) : (Fallible.ok a >>= f) = f a := rfl

end Fallible

/-- `a * b` on `i32`.  Debug builds check for overflow, release builds wrap. -/
def mulI32 (checks : Bool) (a b : Int32) : Fallible Int32 :=
  if checks && decide ((a * b).toInt ≠ a.toInt * b.toInt) then .panic else .ok (a * b)

/-- `i as usize`: the sign is extended. -/
def asUsize (i : Int32) : Nat := (i.toInt % 2 ^ 64).toNat

/-- `vec![0u8; n]`: no vector is longer than `isize::MAX`. -/
def zeroed (n : Nat) : Fallible Nat := if n < 2 ^ 63 then .ok n else .panic

/-- `chunks(4)`. -/
def chunks4 : List UInt8 → List (List UInt8)
  | a :: b :: c :: d :: rest => [a, b, c, d] :: chunks4 rest
  | [] => []
  | rest => [rest]

/-! ## 2. The guest -/

/-- A store: the linear memory, and what else the guest keeps. -/
structure WasmStore (γ : Type) where
  memory : List UInt8
  globals : γ

namespace WasmStore

variable {γ : Type}

/-- `memory.write`: none if it is out of bounds. -/
def write (s : WasmStore γ) (offset : Nat) (bytes : List UInt8) : Option (WasmStore γ) :=
  if offset + bytes.length ≤ s.memory.length then
    some { s with memory := s.memory.take offset ++ bytes
      ++ s.memory.drop (offset + bytes.length) }
  else none

/-- `memory.read`: none if it is out of bounds. -/
def read (s : WasmStore γ) (offset size : Nat) : Option (List UInt8) :=
  if offset + size ≤ s.memory.length then some ((s.memory.drop offset).take size) else none

end WasmStore

/-- A guest module.  A call that traps, or runs out of fuel, returns nothing. -/
structure Guest (γ : Type) where
  /-- The instance with its memory and both functions, if it has them. -/
  instantiate : Option (WasmStore γ)
  alloc : Int32 → WasmStore γ → Option (Int32 × WasmStore γ)
  /-- `rerank(candidates_ptr, candidates_len, scores_ptr)`: the number of scores written. -/
  rerank : Int32 → Int32 → Int32 → WasmStore γ → Option (Int32 × WasmStore γ)

/-- The guest after its `rerank`. -/
structure GuestCall (γ : Type) where
  outputPtr : Int32
  written : Int32
  store : WasmStore γ

namespace WasmRanker

variable {γ : Type}

/-- The first half of `do_rerank`: the guest gets the scores of the candidates. -/
def handOver (guest : Guest γ) (candidates : List RankCandidate) :
    Option (Int32 × WasmStore γ) := do
  let store ← guest.instantiate
  let inputBytes := candidates.flatMap (fun c => c.bm25Score.toLeBytes)
  let inputLen := Int32.ofNat inputBytes.length
  let (inputPtr, store) ← guest.alloc inputLen store
  let store ← store.write (asUsize inputPtr) inputBytes
  return (inputPtr, store)

/-- The two further calls of the guest. -/
def ask (guest : Guest γ) (inputPtr n outputLen : Int32) (store : WasmStore γ) :
    Option (GuestCall γ) := do
  let (outputPtr, store) ← guest.alloc outputLen store
  let (written, store) ← guest.rerank inputPtr n outputPtr store
  return { outputPtr, written, store }

/-- The last part of `do_rerank`: the scores are read and put with the candidates. -/
def readScores (checks : Bool) (candidates : List RankCandidate) (call : GuestCall γ) :
    Fallible (List RankedResult) := do
  let outLen ← mulI32 checks call.written 4
  let size ← zeroed (asUsize outLen)
  let outBytes ← .ofOption (call.store.read (asUsize call.outputPtr) size)
  pure (List.zipWith (fun c chunk => ⟨c.docId, F32.fromLeBytes chunk⟩) candidates
    (chunks4 outBytes))

/-- `do_rerank`. -/
def doRerank (checks : Bool) (guest : Guest γ) (candidates : List RankCandidate) :
    Fallible (List RankedResult) := do
  let n := Int32.ofNat candidates.length
  let (inputPtr, store) ← .ofOption (handOver guest candidates)
  let outputLen ← mulI32 checks n 4
  let call ← .ofOption (ask guest inputPtr n outputLen store)
  readScores checks candidates call

end WasmRanker

/-! ## 3. Rankings -/

namespace GuestCall

variable {γ : Type}

/-- The score at a place of the output buffer. -/
def score (call : GuestCall γ) (i : Nat) : F32 :=
  .fromLeBytes ((call.store.memory.drop (asUsize call.outputPtr + 4 * i)).take 4)

/-- The scores of the first `n` candidates. -/
def scores (call : GuestCall γ) (n : Nat) : List F32 := (List.range n).map call.score

@[simp] theorem length_scores (call : GuestCall γ) (n : Nat) : (call.scores n).length = n := by
  simp [scores]

end GuestCall

/-- Highest score first. -/
def Descending (scores : List F32) : Prop :=
  scores.Pairwise (fun a b => partialCmp b.key a.key ≠ .gt)

instance : DecidablePred Descending := fun _ => inferInstanceAs (Decidable (List.Pairwise _ _))

namespace WasmRanker

variable {γ : Type} {checks : Bool} {guest : Guest γ} {candidates : List RankCandidate}

/-- What the guest leaves behind, if it gets as far. -/
def guestCall (guest : Guest γ) (candidates : List RankCandidate) : Option (GuestCall γ) := do
  let (inputPtr, store) ← handOver guest candidates
  let n := Int32.ofNat candidates.length
  ask guest inputPtr n (n * 4) store

/-- Re-ranking does not panic, and what it returns are the candidates, each with the score the
guest has written for it, the highest first. -/
def Reranks (checks : Bool) (guest : Guest γ) (candidates : List RankCandidate) : Prop :=
  match doRerank checks guest candidates with
  | .panic => False
  | .err => True
  | .ok results => ∃ call, guestCall guest candidates = some call ∧
      results.Perm (List.zipWith (fun c score => ⟨c.docId, score⟩) candidates
        (call.scores candidates.length)) ∧
      Descending (results.map RankedResult.score)

/-- The length of the output buffer overflows an `i32`. -/
def LengthOverflows (candidates : List RankCandidate) : Prop :=
  (candidates.length : Int).bmod (2 ^ 32) < -2 ^ 29 ∨
    2 ^ 29 ≤ (candidates.length : Int).bmod (2 ^ 32)

instance (candidates : List RankCandidate) : Decidable (LengthOverflows candidates) :=
  inferInstanceAs (Decidable (_ ∨ _))

/-- The number of scores that are read, if the guest says it has written so many; none if that
panics. -/
def scoresRead (checks : Bool) (written : Int32) : Option Nat :=
  if checks then
    if 0 ≤ written.toInt ∧ written.toInt < 2 ^ 29 then some written.toInt.toNat else none
  else
    if written.toInt % 2 ^ 30 < 2 ^ 29 then some (written.toInt % 2 ^ 30).toNat else none

/-- The guest says it has written at least as many scores as there are candidates, not more than
can be counted in bytes, and these scores are already in order; unless reading them fails, or
something before. -/
def Complies (checks : Bool) (guest : Guest γ) (candidates : List RankCandidate) : Prop :=
  (checks = true → (handOver guest candidates).isSome = true → ¬ LengthOverflows candidates) ∧
    ∀ call, guestCall guest candidates = some call →
      ∃ k, scoresRead checks call.written = some k ∧
        (asUsize call.outputPtr + 4 * k ≤ call.store.memory.length →
          candidates.length ≤ k ∧ Descending (call.scores candidates.length))

/-! ## 4. The arithmetic -/

theorem toInt_mul_four (a : Int32) : (a * 4).toInt = (a.toInt * 4).bmod (2 ^ 32) := by
  rw [Int32.toInt_mul]
  rfl

theorem mulI32_four (checks : Bool) (a : Int32) : mulI32 checks a 4
    = if checks = true ∧ ¬ (-2 ^ 29 ≤ a.toInt ∧ a.toInt < 2 ^ 29) then .panic
      else .ok (a * 4) := by
  have hfour : (4 : Int32).toInt = 4 := rfl
  have hiff : (a * 4).toInt ≠ a.toInt * (4 : Int32).toInt ↔
      ¬ (-2 ^ 29 ≤ a.toInt ∧ a.toInt < 2 ^ 29) := by
    rw [toInt_mul_four, hfour]
    have hlo := Int32.le_toInt a
    have hhi := Int32.toInt_lt a
    rw [Int.bmod]
    split <;> omega
  rw [mulI32]
  simp only [Bool.and_eq_true, decide_eq_true_iff, hiff]

/-- **What becomes of the number the guest returns.** -/
theorem read_size (checks : Bool) (written : Int32) :
    (mulI32 checks written 4 >>= fun outLen => zeroed (asUsize outLen))
      = match scoresRead checks written with
        | none => .panic
        | some k => .ok (4 * k) := by
  have hlo := Int32.le_toInt written
  have hhi := Int32.toInt_lt written
  have hmul := toInt_mul_four written
  rw [mulI32_four]
  cases checks with
  | true =>
    by_cases hfits : -2 ^ 29 ≤ written.toInt ∧ written.toInt < 2 ^ 29
    · rw [if_neg (fun h => h.2 hfits)]
      have hexact : (written * 4).toInt = written.toInt * 4 := by
        rw [hmul, Int.bmod]
        split <;> omega
      rw [Fallible.ok_bind, zeroed, asUsize, hexact, scoresRead, if_pos rfl]
      by_cases hneg : 0 ≤ written.toInt
      · rw [if_pos (by omega), if_pos ⟨hneg, hfits.2⟩]
        exact congrArg Fallible.ok (by omega)
      · rw [if_neg (by omega), if_neg (fun h => hneg h.1)]
    · rw [if_pos ⟨rfl, hfits⟩, scoresRead, if_pos rfl,
        if_neg (fun h => hfits ⟨by omega, h.2⟩)]
      rfl
  | false =>
    rw [if_neg (fun h => nomatch h.1), Fallible.ok_bind, zeroed, asUsize, hmul, scoresRead,
      if_neg Bool.false_ne_true, Int.bmod]
    by_cases hread : written.toInt % 2 ^ 30 < 2 ^ 29
    · rw [if_pos hread]
      have hexact : written.toInt * 4 % ((2 ^ 32 : Nat) : Int) = written.toInt % 2 ^ 30 * 4 := by
        omega
      rw [hexact, if_pos (by omega), if_pos (by omega)]
      exact congrArg Fallible.ok (by omega)
    · rw [if_neg hread, if_neg (by split <;> omega)]

/-- The chunks of a buffer are the places of the scores. -/
theorem chunks4_take (memory : List UInt8) : ∀ (k offset : Nat),
    offset + 4 * k ≤ memory.length →
    chunks4 ((memory.drop offset).take (4 * k))
      = (List.range k).map (fun i => (memory.drop (offset + 4 * i)).take 4)
  | 0, _, _ => by simp [chunks4]
  | k + 1, offset, h => by
    have hsplit : (memory.drop offset).take (4 * (k + 1))
        = (memory.drop offset).take 4 ++ (memory.drop (offset + 4)).take (4 * k) := by
      rw [show 4 * (k + 1) = 4 + 4 * k by omega, List.take_add, List.drop_drop]
    obtain ⟨a, b, c, d, hfour⟩ : ∃ a b c d, (memory.drop offset).take 4 = [a, b, c, d] := by
      have hlen : ((memory.drop offset).take 4).length = 4 := by
        rw [List.length_take, List.length_drop]
        omega
      match hl : (memory.drop offset).take 4, hlen with
      | [a, b, c, d], _ => exact ⟨a, b, c, d, rfl⟩
    have ih := chunks4_take memory k (offset + 4) (by omega)
    rw [hsplit, hfour, List.range_succ_eq_map, List.map_cons, List.map_map]
    have hhead : (memory.drop (offset + 4 * 0)).take 4 = [a, b, c, d] := hfour
    rw [hhead]
    show [a, b, c, d] :: chunks4 ((memory.drop (offset + 4)).take (4 * k)) = _
    rw [ih]
    refine congrArg _ (List.map_congr_left (fun i _ => ?_))
    rw [Function.comp_apply, show offset + 4 * (i + 1) = offset + 4 + 4 * i by omega]

/-! ## 5. Which guests rank -/

/-- **What is made of the scores**: the candidates that have one, with their scores. -/
theorem readScores_eq (checks : Bool) (candidates : List RankCandidate) (call : GuestCall γ) :
    readScores checks candidates call
      = match scoresRead checks call.written with
        | none => .panic
        | some k =>
          if asUsize call.outputPtr + 4 * k ≤ call.store.memory.length then
            .ok (List.zipWith (fun c score => ⟨c.docId, score⟩) candidates (call.scores k))
          else .err := by
  have hread : readScores checks candidates call
      = (mulI32 checks call.written 4 >>= fun outLen => zeroed (asUsize outLen)) >>= fun size =>
          .ofOption (call.store.read (asUsize call.outputPtr) size) >>= fun outBytes =>
            .ok (List.zipWith (fun c chunk => ⟨c.docId, F32.fromLeBytes chunk⟩) candidates
              (chunks4 outBytes)) := by
    rw [readScores]
    cases mulI32 checks call.written 4 <;> rfl
  rw [hread, read_size]
  cases scoresRead checks call.written with
  | none => rfl
  | some k =>
    simp only [Fallible.ok_bind, WasmStore.read]
    split
    · next hfits =>
      rw [Fallible.ofOption, Fallible.ok_bind, chunks4_take _ k _ hfits, List.zipWith_map_right,
        GuestCall.scores, List.zipWith_map_right]
      rfl
    · rfl

/-- With enough scores, the further ones are not used. -/
theorem zipWith_scores (call : GuestCall γ) {k : Nat} (h : candidates.length ≤ k) :
    List.zipWith (fun (c : RankCandidate) score => (⟨c.docId, score⟩ : RankedResult)) candidates
        (call.scores k)
      = List.zipWith (fun c score => ⟨c.docId, score⟩) candidates
        (call.scores candidates.length) := by
  obtain ⟨more, rfl⟩ := Nat.exists_eq_add_of_le h
  have hsplit : call.scores (candidates.length + more)
      = call.scores candidates.length
        ++ (List.range more).map (fun i => call.score (candidates.length + i)) := by
    rw [GuestCall.scores, List.range_add, List.map_append, List.map_map]
    rfl
  rw [hsplit]
  conv_lhs => rw [← List.append_nil candidates]
  rw [List.zipWith_append (by simp)]
  simp

theorem map_score_zipWith (call : GuestCall γ) :
    (List.zipWith (fun (c : RankCandidate) score => (⟨c.docId, score⟩ : RankedResult)) candidates
      (call.scores candidates.length)).map RankedResult.score
      = call.scores candidates.length := by
  refine List.ext_getElem (by simp) (fun i _ _ => by simp)

/-- The candidates with the scores that are read are a ranking exactly if there are enough
scores, and they are in order. -/
theorem ranking_iff (call : GuestCall γ) (k : Nat) :
    (List.zipWith (fun (c : RankCandidate) score => (⟨c.docId, score⟩ : RankedResult)) candidates
        (call.scores k)).Perm
      (List.zipWith (fun c score => ⟨c.docId, score⟩) candidates
        (call.scores candidates.length)) ∧
    Descending ((List.zipWith (fun (c : RankCandidate) score =>
      (⟨c.docId, score⟩ : RankedResult)) candidates (call.scores k)).map RankedResult.score) ↔
    candidates.length ≤ k ∧ Descending (call.scores candidates.length) := by
  constructor
  · rintro ⟨hperm, hdesc⟩
    have hle : candidates.length ≤ k := by
      have hlen := hperm.length_eq
      simp only [List.length_zipWith, GuestCall.length_scores] at hlen
      omega
    rw [zipWith_scores call hle, map_score_zipWith] at hdesc
    exact ⟨hle, hdesc⟩
  · rintro ⟨hle, hdesc⟩
    rw [zipWith_scores call hle, map_score_zipWith]
    exact ⟨List.Perm.refl _, hdesc⟩

theorem lengthOverflows_iff (candidates : List RankCandidate) :
    LengthOverflows candidates ↔ ¬ (-2 ^ 29 ≤ (Int32.ofNat candidates.length).toInt ∧
      (Int32.ofNat candidates.length).toInt < 2 ^ 29) := by
  have hint : (Int32.ofNat candidates.length).toInt = (candidates.length : Int).bmod (2 ^ 32) :=
    Int32.toInt_ofNat'
  rw [hint, LengthOverflows, not_and_or, not_le, not_lt]

/-- The calls of the guest before its scores are read. -/
theorem doRerank_eq (checks : Bool) (guest : Guest γ) (candidates : List RankCandidate) :
    doRerank checks guest candidates
      = if (handOver guest candidates).isSome = true ∧ checks = true ∧ LengthOverflows candidates
        then .panic
        else .ofOption (guestCall guest candidates) >>= readScores checks candidates := by
  rw [doRerank, guestCall]
  cases handOver guest candidates with
  | none => rw [if_neg (fun h => nomatch h.1)]; rfl
  | some handed =>
    obtain ⟨inputPtr, store⟩ := handed
    simp only [Fallible.ofOption, Fallible.ok_bind, mulI32_four, ← lengthOverflows_iff,
      Option.isSome_some, true_and]
    split
    · rfl
    · rfl

/-- **Which guests rank.**  Re-ranking is safe and gives a ranking if and only if the guest
complies: it returns a number of scores that is not negative, can be counted in bytes, and
reaches all candidates, whose scores are already in descending order. -/
theorem reranks_iff (checks : Bool) (guest : Guest γ) (candidates : List RankCandidate) :
    Reranks checks guest candidates ↔ Complies checks guest candidates := by
  rw [Reranks, doRerank_eq]
  by_cases hover : (handOver guest candidates).isSome = true ∧ checks = true ∧
      LengthOverflows candidates
  · rw [if_pos hover]
    exact ⟨False.elim, fun h => h.1 hover.2.1 hover.1 hover.2.2⟩
  · rw [if_neg hover, Complies, and_iff_right (fun hchecks hhand hlong =>
      hover ⟨hhand, hchecks, hlong⟩)]
    cases hcall : guestCall guest candidates with
    | none => exact ⟨fun _ call h => (nomatch h), fun _ => trivial⟩
    | some call =>
      simp only [Fallible.ofOption, Fallible.ok_bind, readScores_eq, Option.some.injEq,
        forall_eq', exists_eq_left']
      cases scoresRead checks call.written with
      | none => simp
      | some k =>
        simp only [Option.some.injEq, exists_eq_left']
        by_cases hfits : asUsize call.outputPtr + 4 * k ≤ call.store.memory.length
        · simp only [hfits, if_true, true_implies]
          exact ranking_iff call k
        · simp only [hfits, if_false, false_implies]

/-! ## 6. Two guests -/

/-- A candidate that only its id tells from others. -/
def candidate (id : DocId) : RankCandidate := ⟨id, .one, "", "", ⟨0⟩, .empty⟩

/-- A guest with 64 bytes of memory, of which `alloc` hands out one piece after the other; it
scores the candidates with `scores`, and returns `written`. -/
def scripted (scores : List F32) (written : Int32) : Guest Nat where
  instantiate := some { memory := List.replicate 64 0, globals := 0 }
  alloc size store := some (Int32.ofNat store.globals,
    { store with globals := store.globals + size.toInt.toNat })
  rerank _ _ scoresPtr store :=
    (store.write (asUsize scoresPtr) (scores.flatMap F32.toLeBytes)).map (fun s => (written, s))

/-- **A guest that keeps to its contract is not heard.**  It scores the first candidate 1.0 and
the second 2.0, and the first stays first.  A guest that returns -1 makes the host panic, in
debug and in release builds. -/
theorem not_reranks :
    let rising := scripted [⟨0x3f800000⟩, ⟨0x40000000⟩] 2
    doRerank true rising [candidate 1, candidate 2] = .ok [⟨1, ⟨0x3f800000⟩⟩, ⟨2, ⟨0x40000000⟩⟩] ∧
    ¬ Reranks true rising [candidate 1, candidate 2] ∧
    ¬ Reranks false rising [candidate 1, candidate 2] ∧
    doRerank true (scripted [] (-1)) [candidate 1] = .panic ∧
    doRerank false (scripted [] (-1)) [candidate 1] = .panic := by
  intro rising
  have hresult : ∀ checks, doRerank checks rising [candidate 1, candidate 2]
      = .ok [⟨1, ⟨0x3f800000⟩⟩, ⟨2, ⟨0x40000000⟩⟩] := fun checks => by cases checks <;> rfl
  have hnot : ∀ checks, ¬ Reranks checks rising [candidate 1, candidate 2] := by
    intro checks h
    rw [Reranks, hresult] at h
    obtain ⟨call, -, -, hdesc⟩ := h
    exact absurd hdesc (by decide)
  exact ⟨hresult true, hnot true, hnot false, rfl, rfl⟩

/-- Scores in order are a ranking. -/
example : Complies true (scripted [⟨0x40000000⟩, ⟨0x3f800000⟩] 2) [candidate 1, candidate 2] := by
  refine ⟨by decide, fun call hcall => ⟨2, ?_⟩⟩
  obtain rfl := Option.some.inj hcall
  exact ⟨rfl, fun _ => ⟨by decide, by decide⟩⟩

end WasmRanker

end ZearchEngine
