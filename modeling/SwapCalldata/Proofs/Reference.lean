import SwapCalldata.Proofs.Cache

/-!
Compilation without a cache. The reference turns each leg into the instruction of an encoder that is
resolved for it alone, and compares its pool with the pools before it; it has no buffer and keeps no
records. Compilation is the reference with its instructions joined and recorded.
-/
namespace SwapCalldata

namespace EncodedLeg

/-- The record of a leg whose instruction stands at a place in the payload. -/
def ofInstruction (index offset : Nat) (leg : Leg) (instruction : Instruction) : EncodedLeg where
  index := index
  family := leg.pool.family
  pool := leg.pool.address
  recipient := instruction.swap.recipient
  offset := offset
  length := instruction.bytes.length
  share := leg.fraction.share

/-- The records of legs whose instructions are joined from a place on. -/
def records (index offset : Nat) : List Leg → List Instruction → List EncodedLeg
  | leg :: legs, instruction :: instructions =>
    ofInstruction index offset leg instruction
      :: records (index + 1) (offset + instruction.bytes.length) legs instructions
  | _, _ => []

end EncodedLeg

namespace Registry

/-- Who receives the output of a leg that the given legs follow. -/
def receiver {κ : Type} (registry : Registry κ) (recipient : Address) (leg : Leg)
    (rest : List Leg) : Address :=
  if rest.any leg.feeds then registry.entryPoint else recipient

/-- The instructions of legs that follow the given pools. -/
def instructions (registry : Registry) (revision : Revision) (recipient : Address) :
    List Pool → List Leg → Except Failure (List Instruction)
  | _, [] => .ok []
  | seen, leg :: rest =>
    if seen.any fun other => other.conflicts leg.pool then
      .error (.registry (.conflictingPool leg.pool.address))
    else do
      let first ← registry.instruct revision leg (registry.receiver recipient leg rest)
      let others ← instructions registry revision recipient (leg.pool :: seen) rest
      return first :: others

variable {registry : Registry} {revision : Revision} {recipient : Address} {seen : List Pool}
  {leg : Leg}

theorem instructions_of_conflict {other : Pool} (hother : other ∈ seen)
    (hconflict : other.conflicts leg.pool = true) (rest : List Leg) :
    registry.instructions revision recipient seen (leg :: rest) =
      .error (.registry (.conflictingPool leg.pool.address)) :=
  if_pos (List.any_eq_true.mpr ⟨other, hother, hconflict⟩)

theorem instructions_cons (hfree : ∀ other ∈ seen, other.conflicts leg.pool = false)
    (rest : List Leg) : registry.instructions revision recipient seen (leg :: rest) =
      registry.instruct revision leg (registry.receiver recipient leg rest) >>= fun first =>
        (registry.instructions revision recipient (leg.pool :: seen) rest).map (first :: ·) := by
  have hnone : ¬(seen.any fun other => other.conflicts leg.pool) = true := by
    rw [List.any_eq_true]
    rintro ⟨other, hother, hconflict⟩
    rw [hfree other hother] at hconflict
    cases hconflict
  rw [instructions, if_neg hnone]
  rfl

end Registry

namespace Compiler

variable {registry : Registry} {revision : Revision} {recipient receiver : Address}
  {route : Route} {progress : Progress} {leg : Leg} {seen : List Pool}

/-- What has been written so far. -/
def Progress.written (progress : Progress) : List UInt8 × List EncodedLeg :=
  (progress.payload, progress.legs)

def Progress.extend (progress : Progress) (cache : EncoderCache) (leg : Leg)
    (instruction : Instruction) : Progress :=
  ⟨cache, progress.payload ++ instruction.bytes, progress.legs ++
    [.ofInstruction progress.legs.length progress.payload.length leg instruction]⟩

theorem encodeLeg_of_resolve {encoder : PoolEncoder} {cache : EncoderCache}
    (hresolve : progress.cache.resolve registry leg.pool = .ok (encoder, cache))
    (hfamily : encoder.family = leg.pool.family) :
    encodeLeg registry route revision progress leg receiver =
      (encoder.instruct revision leg receiver).map (progress.extend cache leg) := by
  unfold encodeLeg PoolEncoder.instruct
  rw [hresolve]
  simp only [Encoding.encode, Encoding.family, PoolEncoder.encode, Except.mapError, bind,
    Except.bind]
  cases hfound : encoder.instruction? revision leg receiver with
  | error error => rfl
  | ok found =>
    cases found with
    | none => rfl
    | some instruction =>
      have hrecipient := PoolEncoder.recipient_of_instruction? hfound
      show Except.ok _ = Except.ok _
      rw [hfamily, ← hrecipient]
      rfl

theorem encodeLeg_of_conflict (h : progress.cache.Covers registry seen) {other : Pool}
    (hother : other ∈ seen) (hconflict : other.conflicts leg.pool = true) :
    encodeLeg registry route revision progress leg receiver =
      .error (.registry (.conflictingPool leg.pool.address)) := by
  unfold encodeLeg
  rw [EncoderCache.resolve_of_conflict h hother hconflict]
  rfl

/-- A leg in conflict with none before it gets what an encoder for its own pool gives it. -/
theorem encodeLeg_eq (h : progress.cache.Covers registry seen)
    (hfree : ∀ other ∈ seen, other.conflicts leg.pool = false) :
    encodeLeg registry route revision progress leg receiver =
      (registry.instruct revision leg receiver).map
        (progress.extend (progress.cache.after registry leg.pool) leg) := by
  unfold EncoderCache.after Registry.instruct
  cases hfind : progress.cache.find? leg.pool.address with
  | some encoder =>
    obtain ⟨origin, _, _, horigin⟩ := h.origin _ _ hfind
    obtain ⟨hserves, rfl⟩ := Registry.resolve_eq_ok_iff.mp horigin
    have hagrees : origin.agrees leg.pool = true := (h.agrees_iff hfind).mpr hfree
    have hresolve : progress.cache.resolve registry leg.pool = .ok (_, progress.cache) :=
      EncoderCache.resolve_of_hit hfind hagrees
    have hfresh := Registry.resolve_eq_ok_iff.mpr ⟨hserves.of_agrees hagrees, rfl⟩
    rw [hresolve, hfresh, encodeLeg_of_resolve hresolve (Pool.family_eq_of_agrees hagrees),
      Registry.instruct_encoderOf_eq_of_agrees hagrees]
    rfl
  | none =>
    have hresolve : progress.cache.resolve registry leg.pool = _ :=
      EncoderCache.resolve_of_miss hfind
    cases hfresh : registry.resolve leg.pool with
    | error error =>
      unfold encodeLeg
      rw [hresolve, hfresh]
      rfl
    | ok encoder =>
      rw [hfresh] at hresolve
      have hpool := EncoderCache.pool_of_resolve hfresh
      rw [hresolve, encodeLeg_of_resolve hresolve (congrArg Pool.family hpool)]
      rfl

theorem covers_after_of_instruct (h : progress.cache.Covers registry seen)
    (hfree : ∀ other ∈ seen, other.conflicts leg.pool = false) {instruction : Instruction}
    (hinstruct : registry.instruct revision leg receiver = .ok instruction) :
    (progress.cache.after registry leg.pool).Covers registry (leg.pool :: seen) := by
  obtain ⟨hserves, hfee, _⟩ := Registry.instruct_eq_ok_iff.mp hinstruct
  exact h.after hserves hfee hfree

theorem encodeLegs_cons {κ ε : Type} [Constructor κ ε] [Encoding ε] {registry : Registry κ}
    {progress : Progress ε} (rest : List Leg) :
    encodeLegs registry route revision recipient progress (leg :: rest) =
      encodeLeg registry route revision progress leg (registry.receiver recipient leg rest) >>=
        fun next => encodeLegs registry route revision recipient next rest := rfl

/-- What is written for legs is what the reference gives, joined and recorded; a refusal is the
reference's refusal. -/
theorem encodeLegs_eq {legs : List Leg} (h : progress.cache.Covers registry seen) :
    (encodeLegs registry route revision recipient progress legs).map Progress.written =
      (registry.instructions revision recipient seen legs).map fun instructions =>
        (progress.payload ++ instructions.flatMap Instruction.bytes, progress.legs ++
          EncodedLeg.records progress.legs.length progress.payload.length legs instructions) := by
  induction legs generalizing progress seen with
  | nil =>
    simp only [encodeLegs, Registry.instructions, Except.map, Progress.written, List.flatMap_nil,
      List.append_nil, EncodedLeg.records]
  | cons leg rest ih =>
    rw [encodeLegs_cons]
    by_cases hconflict : ∃ other ∈ seen, other.conflicts leg.pool = true
    · obtain ⟨other, hother, hconflict⟩ := hconflict
      rw [encodeLeg_of_conflict h hother hconflict,
        Registry.instructions_of_conflict hother hconflict]
      rfl
    · have hfree : ∀ other ∈ seen, other.conflicts leg.pool = false := by
        intro other hother
        exact Bool.eq_false_iff.mpr fun hyes => hconflict ⟨other, hother, hyes⟩
      rw [encodeLeg_eq h hfree, Registry.instructions_cons hfree]
      cases hinstruct : registry.instruct revision leg (registry.receiver recipient leg rest) with
      | error error => rfl
      | ok instruction =>
        let next := progress.extend (progress.cache.after registry leg.pool) leg instruction
        have hcovers : next.cache.Covers registry (leg.pool :: seen) :=
          covers_after_of_instruct h hfree hinstruct
        show (encodeLegs registry route revision recipient next rest).map Progress.written =
          ((registry.instructions revision recipient (leg.pool :: seen) rest).map _).map _
        rw [ih hcovers]
        cases registry.instructions revision recipient (leg.pool :: seen) rest with
        | error error => rfl
        | ok instructions =>
          simp only [Except.map, next, Progress.extend, EncodedLeg.records, List.flatMap_cons,
            List.length_append, List.length_singleton, List.append_assoc, List.singleton_append]

end Compiler

end SwapCalldata
