import SwapCalldata.Proofs.Acceptance

/-!
Who receives the output of a leg, and what one more leg changes. A leg pays the entry point exactly
when a later leg trades on what it delivers. A further leg leaves all of a compiled route as it was,
but for the recipients of the legs that it is the first to follow up.
-/
namespace SwapCalldata

/-- Where the recipient stands in the instructions of a revision. -/
def Revision.recipientOffset : Revision → Nat
  | .v1 => 42
  | .v2 => 22

namespace Leg

/-- One of the legs trades on what this leg delivers. -/
def FeedsAny (leg : Leg) (rest : List Leg) : Prop :=
  ∃ later ∈ rest, later.tokenFrom.address = leg.tokenTo.address

instance (leg : Leg) (rest : List Leg) : Decidable (leg.FeedsAny rest) := by
  unfold FeedsAny
  infer_instance

/-- A next leg trades on what this leg delivers, and none of the legs before it does. -/
def Redirected (leg : Leg) (rest : List Leg) (next : Leg) : Prop :=
  next.tokenFrom.address = leg.tokenTo.address ∧ ¬leg.FeedsAny rest

instance (leg : Leg) (rest : List Leg) (next : Leg) : Decidable (leg.Redirected rest next) := by
  unfold Redirected
  infer_instance

variable {leg next : Leg} {rest : List Leg}

theorem any_feeds_iff : rest.any leg.feeds = true ↔ leg.FeedsAny rest := by
  simp [FeedsAny, feeds, Token.sameAsset]

theorem feedsAny_append_singleton_iff :
    leg.FeedsAny (rest ++ [next]) ↔ leg.FeedsAny rest ∨ leg.Redirected rest next := by
  have hsplit : leg.FeedsAny (rest ++ [next]) ↔
      leg.FeedsAny rest ∨ next.tokenFrom.address = leg.tokenTo.address := by
    simp [FeedsAny, or_and_right, exists_or]
  rw [hsplit]
  unfold Redirected
  tauto

/-- All but the recipient of an instruction is the same for every recipient. -/
theorem exists_bytes_instructionAt (leg : Leg) (revision : Revision) (source target : Nat) :
    ∃ before after : List UInt8, before.length = revision.recipientOffset ∧
      ∀ receiver, (leg.instructionAt revision receiver source target).bytes =
        before ++ receiver.bytes ++ after := by
  have hlength := leg.pool.address.length_bytes
  have hcurrent (family : PoolFamily) (trailer : List UInt8) :
      ∃ before after : List UInt8, before.length = 22 ∧ ∀ receiver : Address,
        Instruction.header family ⟨leg.pool.address, source == 0, receiver⟩ ++ trailer =
          before ++ receiver.bytes ++ after := by
    refine ⟨family.tag :: leg.pool.address.bytes ++ [Instruction.flag (source == 0)], trailer, ?_,
      fun receiver => ?_⟩
    · simp [hlength]
    · simp [Instruction.header]
  unfold instructionAt
  cases revision with
  | v1 =>
    refine ⟨Instruction.legacyCommand :: leg.pool.address.bytes ++ leg.tokenFrom.address.bytes
      ++ [Instruction.flag (source == 0)], [], ?_, fun receiver => ?_⟩
    · simp [hlength, leg.tokenFrom.address.length_bytes, Revision.recipientOffset]
    · simp [Instruction.bytes]
  | v2 =>
    cases leg.pool.kind with
    | constantProduct fee =>
      have hbare := hcurrent .constantProduct []
      simp only [List.append_nil] at hbare
      exact hbare
    | concentratedLiquidity fee =>
      have hbare := hcurrent .concentratedLiquidity []
      simp only [List.append_nil] at hbare
      exact hbare
    | stable fee => exact hcurrent .stable [Instruction.selector source target]
    | bridge destination =>
      exact hcurrent .bridge (Bytes.bigEndian 4 destination.toUInt32.toNat)

end Leg

namespace Registry

variable {registry : Registry} {revision : Revision} {leg : Leg}

theorem receiver_eq (registry : Registry) (recipient : Address) (leg : Leg) (rest : List Leg) :
    registry.receiver recipient leg rest =
      if leg.FeedsAny rest then registry.entryPoint else recipient := by
  unfold receiver
  simp only [Leg.any_feeds_iff]

/-- Who receives the output of a leg of a route is decided by whether the route says that the leg
feeds a later one. -/
theorem receiver_eq_of_getElem? (registry : Registry) (recipient : Address) {route : Route}
    {k : Nat} (hleg : route.legs[k]? = some leg) :
    registry.receiver recipient leg (route.legs.drop (k + 1)) =
      if route.feedsLaterLeg k then registry.entryPoint else recipient := by
  have hfeeds : route.feedsLaterLeg k = (route.legs.drop (k + 1)).any leg.feeds := by
    simp only [Route.feedsLaterLeg, hleg]
  rw [receiver, hfeeds]

theorem receiver_append_singleton (registry : Registry) (recipient : Address) (leg : Leg)
    (rest : List Leg) (next : Leg) : registry.receiver recipient leg (rest ++ [next]) =
      if leg.Redirected rest next then registry.entryPoint
      else registry.receiver recipient leg rest := by
  rw [receiver_eq, receiver_eq]
  by_cases hredirected : leg.Redirected rest next
  · have hfeeds := Leg.feedsAny_append_singleton_iff.mpr (Or.inr hredirected)
    rw [if_pos hfeeds, if_pos hredirected]
  · have hfeeds : leg.FeedsAny (rest ++ [next]) ↔ leg.FeedsAny rest := by
      rw [Leg.feedsAny_append_singleton_iff, or_iff_left hredirected]
    simp only [hfeeds, if_neg hredirected]

/-- Two instructions of one leg differ in the recipient only. -/
theorem exists_bytes_of_instruct {receiver receiver' : Address}
    {instruction instruction' : Instruction}
    (h : registry.instruct revision leg receiver = .ok instruction)
    (h' : registry.instruct revision leg receiver' = .ok instruction') :
    ∃ before after : List UInt8, before.length = revision.recipientOffset ∧
      instruction.bytes = before ++ receiver.bytes ++ after ∧
      instruction'.bytes = before ++ receiver'.bytes ++ after := by
  obtain ⟨_, _, _, source, target, hindices, rfl⟩ := instruct_eq_ok_iff.mp h
  obtain ⟨_, _, _, source', target', hindices', rfl⟩ := instruct_eq_ok_iff.mp h'
  rw [hindices] at hindices'
  obtain ⟨rfl, rfl⟩ := Prod.mk.inj (Except.ok.inj hindices')
  obtain ⟨before, after, hlength, hbytes⟩ := leg.exists_bytes_instructionAt revision source target
  exact ⟨before, after, hlength, hbytes receiver, hbytes receiver'⟩

theorem length_eq_of_instruct {receiver receiver' : Address}
    {instruction instruction' : Instruction}
    (h : registry.instruct revision leg receiver = .ok instruction)
    (h' : registry.instruct revision leg receiver' = .ok instruction') :
    instruction.bytes.length = instruction'.bytes.length := by
  obtain ⟨before, after, _, hbytes, hbytes'⟩ := exists_bytes_of_instruct h h'
  simp [hbytes, hbytes', Address.length_bytes]

theorem slice?_of_instruct {receiver : Address} {instruction : Instruction}
    (h : registry.instruct revision leg receiver = .ok instruction) :
    Bytes.slice? instruction.bytes revision.recipientOffset 20 = some receiver.bytes := by
  obtain ⟨before, after, hlength, hbytes, _⟩ := exists_bytes_of_instruct h h
  have hslice := Bytes.slice?_append before receiver.bytes after
  rwa [hlength, receiver.length_bytes, ← hbytes] at hslice

end Registry

/-- Places before and after an address do not depend on it. -/
theorem Address.getElem?_outside {before after : List UInt8} {a b : Address} {q : Nat}
    (hq : q < before.length ∨ before.length + 20 ≤ q) :
    (before ++ a.bytes ++ after)[q]? = (before ++ b.bytes ++ after)[q]? := by
  rcases hq with hq | hq
  · simp only [List.append_assoc, List.getElem?_append_left hq]
  · have ha : (before ++ a.bytes).length = before.length + 20 := by simp [a.length_bytes]
    have hb : (before ++ b.bytes).length = before.length + 20 := by simp [b.length_bytes]
    rw [List.getElem?_append_right (ha ▸ hq), List.getElem?_append_right (hb ▸ hq), ha, hb]

namespace Instruction

variable {instructions instructions' : List Instruction} {instruction : Instruction} {k p q : Nat}

/-- Every place in joined instructions is a place in one of them. -/
theorem exists_of_lt_length (h : p < (instructions.flatMap bytes).length) :
    ∃ k instruction q, instructions[k]? = some instruction ∧ q < instruction.bytes.length ∧
      p = ((instructions.take k).flatMap bytes).length + q := by
  induction instructions generalizing p with
  | nil => simp at h
  | cons first others ih =>
    rw [List.flatMap_cons, List.length_append] at h
    by_cases hp : p < first.bytes.length
    · exact ⟨0, first, p, rfl, hp, by simp⟩
    · obtain ⟨k, instruction, q, hinstruction, hq, heq⟩ :=
        ih (p := p - first.bytes.length) (by omega)
      refine ⟨k + 1, instruction, q, hinstruction, hq, ?_⟩
      rw [List.take_succ_cons, List.flatMap_cons, List.length_append]
      omega

theorem getElem?_flatMap_bytes (h : instructions[k]? = some instruction)
    (hq : q < instruction.bytes.length) :
    (instructions.flatMap bytes)[((instructions.take k).flatMap bytes).length + q]? =
      instruction.bytes[q]? := by
  rw [Compiler.payload_split h, List.append_assoc,
    List.getElem?_append_right (Nat.le_add_right _ _), Nat.add_sub_cancel_left,
    List.getElem?_append_left hq]

/-- Instructions of the same lengths stand in the same places. -/
theorem length_flatMap_take_eq (hk : k ≤ instructions.length)
    (h : ∀ j < k, ∃ instruction instruction', instructions[j]? = some instruction ∧
      instructions'[j]? = some instruction' ∧
      instruction.bytes.length = instruction'.bytes.length) :
    ((instructions.take k).flatMap bytes).length =
      ((instructions'.take k).flatMap bytes).length := by
  induction k with
  | zero => rfl
  | succ k ih =>
    obtain ⟨instruction, instruction', hinstruction, hinstruction', hlength⟩ :=
      h k (Nat.lt_succ_self k)
    rw [Compiler.length_payload_take_succ hinstruction,
      Compiler.length_payload_take_succ hinstruction', hlength,
      ih (by omega) fun j hj => h j (by omega)]

end Instruction

namespace Route

/-- The route with one more leg at its end. -/
def extend (route : Route) (next : Leg) : Route := { route with legs := route.legs ++ [next] }

end Route

namespace CompiledRoute

/-- Each leg's record and instruction name the entry point as the recipient where a later leg trades
on what the leg delivers, and else the caller's recipient. -/
structure Pays (compiled : CompiledRoute) (revision : Revision) (legs : List Leg)
    (entryPoint recipient : Address) : Prop where
  leg : ∀ (k : Nat) (leg : Leg), legs[k]? = some leg → ∃ entry bytes,
    compiled.legs[k]? = some entry ∧ compiled.legBytes? k = some bytes ∧
      entry.recipient = (if leg.FeedsAny (legs.drop (k + 1)) then entryPoint else recipient) ∧
      Bytes.slice? bytes revision.recipientOffset 20 = some entry.recipient.bytes
  last : ∃ entry, compiled.legs.getLast? = some entry ∧ entry.recipient = recipient

/-- One more leg changes no record but for redirected recipients, and no byte of the payload but for
the recipients of the redirected legs. -/
structure Extends (longer shorter : CompiledRoute) (revision : Revision) (legs : List Leg)
    (next : Leg) (entryPoint recipient : Address) : Prop where
  amountIn : longer.amountIn = shorter.amountIn
  amountOutMin : longer.amountOutMin = shorter.amountOutMin
  entry : ∀ (k : Nat) (leg : Leg), legs[k]? = some leg → ∃ entry : EncodedLeg,
    shorter.legs[k]? = some entry ∧
    (leg.Redirected (legs.drop (k + 1)) next → entry.recipient = recipient) ∧
    longer.legs[k]? = some { entry with
      recipient := if leg.Redirected (legs.drop (k + 1)) next then entryPoint
        else entry.recipient }
  appended : ∃ entry, longer.legs[legs.length]? = some entry ∧
    entry.offset = shorter.payload.length
  payload : ∀ p < shorter.payload.length,
    (∀ (k : Nat) (leg : Leg) (entry : EncodedLeg), legs[k]? = some leg →
      shorter.legs[k]? = some entry →
      leg.Redirected (legs.drop (k + 1)) next →
      p < entry.offset + revision.recipientOffset ∨
        entry.offset + revision.recipientOffset + 20 ≤ p) →
    longer.payload[p]? = shorter.payload[p]?

end CompiledRoute

namespace Compiler

variable {compiler : Compiler} {route : Route} {revision : Revision} {recipient : Address}
  {next : Leg} {instructions instructions' : List Instruction}

theorem pays_of_instructs (hlegs : route.legs ≠ [])
    (h : compiler.Instructs route revision recipient instructions) :
    (compiler.assemble route revision instructions).Pays revision route.legs
      compiler.registry.entryPoint recipient := by
  constructor
  case leg =>
    intro k leg hleg
    obtain ⟨instruction, hinstruction, hinstruct⟩ := h.leg k leg hleg
    have hrecipient := Registry.recipient_of_instruct hinstruct
    refine ⟨_, instruction.bytes, getElem?_legs_assemble hleg hinstruction, ?_, ?_, ?_⟩
    · exact h.legBytes?_eq hinstruction
    · exact hrecipient.trans (Registry.receiver_eq _ _ _ _)
    · show Bytes.slice? _ _ _ = some instruction.swap.recipient.bytes
      rw [hrecipient]
      exact Registry.slice?_of_instruct hinstruct
  case last =>
    have hpos : 0 < route.legs.length := List.length_pos_of_ne_nil hlegs
    have hleg := List.getElem?_eq_getElem (Nat.sub_one_lt_of_lt hpos)
    obtain ⟨instruction, hinstruction, hinstruct⟩ := h.leg _ _ hleg
    have hnone : route.legs.drop (route.legs.length - 1 + 1) = [] :=
      List.drop_eq_nil_of_le (by omega)
    rw [hnone] at hinstruct
    have hlast : (compiler.assemble route revision instructions).legs.getLast? =
        (compiler.assemble route revision instructions).legs[route.legs.length - 1]? := by
      rw [List.getLast?_eq_getElem?, length_legs_assemble h.length]
    exact ⟨_, hlast.trans (getElem?_legs_assemble hleg hinstruction),
      Registry.recipient_of_instruct hinstruct⟩

/-- The record of a leg names the entry point exactly where the route says that the leg feeds a
later one. -/
theorem exists_recipient_of_compile {compiled : CompiledRoute} {k : Nat} {leg : Leg}
    (h : compiler.compile route revision recipient = .ok compiled)
    (hleg : route.legs[k]? = some leg) : ∃ entry, compiled.legs[k]? = some entry ∧
      entry.recipient =
        if route.feedsLaterLeg k then compiler.registry.entryPoint else recipient := by
  obtain ⟨instructions, rfl, hinstructs⟩ := exists_instructions h
  obtain ⟨instruction, hinstruction, hinstruct⟩ := hinstructs.leg k leg hleg
  refine ⟨_, getElem?_legs_assemble hleg hinstruction, ?_⟩
  rw [← Registry.receiver_eq_of_getElem? _ _ hleg]
  exact Registry.recipient_of_instruct hinstruct

theorem exists_compile_of_extend (hlegs : route.legs ≠ [])
    (h : ∃ longer, compiler.compile (route.extend next) revision recipient = .ok longer) :
    ∃ shorter, compiler.compile route revision recipient = .ok shorter := by
  rw [exists_compile_iff_pairwise] at h ⊢
  obtain ⟨hviable, _, haccepts, hfree⟩ := h
  refine ⟨hviable, hlegs, fun leg hmem => ?_, ?_⟩
  · exact haccepts leg (List.mem_append_left _ hmem)
  · exact (List.pairwise_append.mp hfree).1

/-- The instruction of a leg before and after one more leg. -/
theorem instruct_of_extend {k : Nat} {leg : Leg} (hleg : route.legs[k]? = some leg)
    (h : compiler.Instructs route revision recipient instructions)
    (h' : compiler.Instructs (route.extend next) revision recipient instructions') :
    ∃ instruction instruction', instructions[k]? = some instruction ∧
      instructions'[k]? = some instruction' ∧
      compiler.registry.instruct revision leg (compiler.registry.receiver recipient leg
        (route.legs.drop (k + 1))) = .ok instruction ∧
      compiler.registry.instruct revision leg
        (if leg.Redirected (route.legs.drop (k + 1)) next then compiler.registry.entryPoint
        else compiler.registry.receiver recipient leg (route.legs.drop (k + 1))) =
          .ok instruction' := by
  obtain ⟨hk, _⟩ := List.getElem?_eq_some_iff.mp hleg
  obtain ⟨instruction, hinstruction, hinstruct⟩ := h.leg k leg hleg
  obtain ⟨instruction', hinstruction', hinstruct'⟩ :=
    h'.leg k leg ((List.getElem?_append_left hk).trans hleg)
  have hdrop : (route.extend next).legs.drop (k + 1) = route.legs.drop (k + 1) ++ [next] :=
    List.drop_append_of_le_length hk
  rw [hdrop, Registry.receiver_append_singleton] at hinstruct'
  exact ⟨instruction, instruction', hinstruction, hinstruction', hinstruct, hinstruct'⟩

theorem length_take_of_extend {k : Nat} (hk : k ≤ route.legs.length)
    (h : compiler.Instructs route revision recipient instructions)
    (h' : compiler.Instructs (route.extend next) revision recipient instructions') :
    ((instructions.take k).flatMap Instruction.bytes).length =
      ((instructions'.take k).flatMap Instruction.bytes).length := by
  apply Instruction.length_flatMap_take_eq (h.length ▸ hk)
  intro j hj
  obtain ⟨instruction, instruction', hinstruction, hinstruction', hinstruct, hinstruct'⟩ :=
    instruct_of_extend (List.getElem?_eq_getElem (Nat.lt_of_lt_of_le hj hk)) h h'
  exact ⟨instruction, instruction', hinstruction, hinstruction',
    Registry.length_eq_of_instruct hinstruct hinstruct'⟩

theorem extends_of_instructs
    (h : compiler.Instructs route revision recipient instructions)
    (h' : compiler.Instructs (route.extend next) revision recipient instructions') :
    (compiler.assemble (route.extend next) revision instructions').Extends
      (compiler.assemble route revision instructions) revision route.legs next
      compiler.registry.entryPoint recipient := by
  constructor
  case amountIn => rfl
  case amountOutMin => rfl
  case entry =>
    intro k leg hleg
    obtain ⟨hk, _⟩ := List.getElem?_eq_some_iff.mp hleg
    obtain ⟨instruction, instruction', hinstruction, hinstruction', hinstruct, hinstruct'⟩ :=
      instruct_of_extend hleg h h'
    have hrecipient := Registry.recipient_of_instruct hinstruct
    have hrecipient' := Registry.recipient_of_instruct hinstruct'
    have hleg' : (route.extend next).legs[k]? = some leg :=
      (List.getElem?_append_left hk).trans hleg
    have hrecord : (compiler.assemble (route.extend next) revision instructions').legs[k]? = _ :=
      getElem?_legs_assemble hleg' hinstruction'
    refine ⟨_, getElem?_legs_assemble hleg hinstruction, ?_, hrecord.trans ?_⟩
    · intro hredirected
      rw [Registry.receiver_eq, if_neg hredirected.2] at hrecipient
      exact hrecipient
    · rw [← length_take_of_extend (Nat.le_of_lt hk) h h', Option.some.injEq]
      unfold EncodedLeg.ofInstruction
      rw [Registry.length_eq_of_instruct hinstruct hinstruct', hrecipient, hrecipient']
  case appended =>
    have hnext : (route.extend next).legs[route.legs.length]? = some next :=
      List.getElem?_concat_length
    obtain ⟨instruction, hinstruction, _⟩ := h'.leg _ _ hnext
    refine ⟨_, getElem?_legs_assemble hnext hinstruction, ?_⟩
    have hlength := length_take_of_extend (Nat.le_refl _) h h'
    rw [List.take_of_length_le (Nat.le_of_eq h.length)] at hlength
    exact hlength.symm
  case payload =>
    intro p hp houtside
    obtain ⟨k, instruction, q, hinstruction, hq, rfl⟩ := Instruction.exists_of_lt_length hp
    obtain ⟨hk, _⟩ := List.getElem?_eq_some_iff.mp hinstruction
    rw [h.length] at hk
    have hleg := List.getElem?_eq_getElem hk
    obtain ⟨first, instruction', hfirst, hinstruction', hinstruct, hinstruct'⟩ :=
      instruct_of_extend hleg h h'
    obtain rfl := Option.some.inj (hfirst.symm.trans hinstruction)
    obtain ⟨before, after, hbefore, hbytes, hbytes'⟩ :=
      Registry.exists_bytes_of_instruct hinstruct hinstruct'
    have hq' : q < instruction'.bytes.length := by
      rwa [← Registry.length_eq_of_instruct hinstruct hinstruct']
    show (instructions'.flatMap Instruction.bytes)[_]? =
      (instructions.flatMap Instruction.bytes)[_]?
    rw [Instruction.getElem?_flatMap_bytes hinstruction hq,
      length_take_of_extend (Nat.le_of_lt hk) h h',
      Instruction.getElem?_flatMap_bytes hinstruction' hq', hbytes, hbytes']
    by_cases hredirected : route.legs[k].Redirected (route.legs.drop (k + 1)) next
    · have hfar := houtside k _ _ hleg (getElem?_legs_assemble hleg hinstruction) hredirected
      apply Address.getElem?_outside
      simp only [EncodedLeg.ofInstruction] at hfar
      omega
    · rw [if_neg hredirected]

/-- A leg pays the entry point where a later leg trades on what it delivers, and else the caller's
recipient. If a route compiles with one more leg, it compiles without it, to the same result but for
the recipients of the legs that only the new one follows up. -/
theorem compile_fund_routing (compiler : Compiler) (route : Route) (revision : Revision)
    (recipient : Address) :
    (∀ compiled, compiler.compile route revision recipient = .ok compiled →
      compiled.Pays revision route.legs compiler.registry.entryPoint recipient) ∧
    (∀ next longer, route.legs ≠ [] →
      compiler.compile (route.extend next) revision recipient = .ok longer →
      ∃ shorter, compiler.compile route revision recipient = .ok shorter ∧
        longer.Extends shorter revision route.legs next compiler.registry.entryPoint
          recipient) := by
  constructor
  · intro compiled h
    obtain ⟨instructions, rfl, hinstructs⟩ := exists_instructions h
    exact pays_of_instructs (compile_eq_ok_iff.mp h).2.1 hinstructs
  · intro next longer hlegs h
    obtain ⟨shorter, hshorter⟩ := exists_compile_of_extend hlegs ⟨longer, h⟩
    refine ⟨shorter, hshorter, ?_⟩
    obtain ⟨_, rfl, hinstructs⟩ := exists_instructions hshorter
    obtain ⟨_, rfl, hinstructs'⟩ := exists_instructions h
    exact extends_of_instructs hinstructs hinstructs'

end Compiler

namespace Sample

/-- The two swaps without the bridge. -/
def swapRoute : Route := { route with legs := route.legs.take 2 }

end Sample

theorem Compiler.compile_fund_routing_route :
    Sample.compiler.compile Sample.route .v2 (Sample.address 0xAA) = .ok Sample.compiled ∧
      Sample.compiled.Pays .v2 Sample.route.legs (Sample.address 0xEE) (Sample.address 0xAA) ∧
      ∃ shorter,
        Sample.compiler.compile Sample.swapRoute .v2 (Sample.address 0xAA) = .ok shorter ∧
        Sample.compiled.Extends shorter .v2 Sample.swapRoute.legs
          (Sample.leg 0xC0 0xD0 Sample.bridgePool) (Sample.address 0xEE)
          (Sample.address 0xAA) := by
  obtain ⟨hpays, _⟩ :=
    compile_fund_routing Sample.compiler Sample.route .v2 (Sample.address 0xAA)
  obtain ⟨_, hextends⟩ :=
    compile_fund_routing Sample.compiler Sample.swapRoute .v2 (Sample.address 0xAA)
  exact ⟨Sample.compile_route, hpays _ Sample.compile_route,
    hextends _ _ (by decide) Sample.compile_route⟩

end SwapCalldata
