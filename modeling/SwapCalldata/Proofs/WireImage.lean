import SwapCalldata.Proofs.CanonicalText
import SwapCalldata.Proofs.Compilation
import SwapCalldata.Wire.Conversion

/-!
The wire form of a compiled route as its image. Each text of the form is canonical and is read back
as what it was written for, and each leg keeps its place and its numbers, so a form is the image of
one compiled route only. Places and lengths on the wire are words of 64 bits, which is enough for
every payload of fewer than 2^64 bytes.
-/
namespace SwapCalldata

/-- The numbers of the record are words of 64 bits. -/
structure EncodedLeg.FitsWords (leg : EncodedLeg) : Prop where
  index : leg.index < 2 ^ 64
  offset : leg.offset < 2 ^ 64
  length : leg.length < 2 ^ 64

def CompiledRoute.FitsWords (compiled : CompiledRoute) : Prop :=
  ∀ leg ∈ compiled.legs, leg.FitsWords

/-- No instruction is empty, so there are no more of them than bytes. -/
theorem Instruction.length_le_length_flatMap (instructions : List Instruction) :
    instructions.length ≤ (instructions.flatMap bytes).length := by
  induction instructions with
  | nil => exact Nat.le_refl 0
  | cons first rest ih =>
    have hfirst := List.length_pos_iff.mpr first.bytes_ne_nil
    rw [List.length_cons, List.flatMap_cons, List.length_append]
    omega

/-- The records of a compiled route point into its payload. -/
theorem Compiler.fitsWords_of_compile {compiler : Compiler} {route : Route} {revision : Revision}
    {recipient : Address} {compiled : CompiledRoute}
    (h : compiler.compile route revision recipient = .ok compiled)
    (hpayload : compiled.payload.length < 2 ^ 64) : compiled.FitsWords := by
  obtain ⟨instructions, rfl, hinstructs⟩ := exists_instructions h
  intro entry hentry
  obtain ⟨k, hk⟩ := List.mem_iff_getElem?.mp hentry
  obtain ⟨leg, instruction, _, hinstruction, rfl⟩ := exists_of_getElem?_legs hinstructs.length hk
  have hplace : k < instructions.length := (List.getElem?_eq_some_iff.mp hinstruction).1
  have hcount := Instruction.length_le_length_flatMap instructions
  have hsplit : (instructions.flatMap Instruction.bytes).length < 2 ^ 64 := hpayload
  rw [payload_split hinstruction, List.length_append, List.length_append] at hsplit hcount
  constructor
  case index => exact hplace.trans_le (hcount.trans hsplit.le)
  case offset => exact (Nat.le_add_right _ _).trans_lt ((Nat.le_add_right _ _).trans_lt hsplit)
  case length => exact (Nat.le_add_left _ _).trans_lt ((Nat.le_add_right _ _).trans_lt hsplit)

/-- The wire form of a record says what the record says. -/
structure EncodedLeg.Pictured (leg : EncodedLeg) (wire : WireEncodedLeg) : Prop where
  pool : Address.parse wire.pool = .ok leg.pool
  recipient : Address.parse wire.recipient = .ok leg.recipient
  family : wire.family = leg.family
  share : wire.share = leg.share
  words : leg.FitsWords → wire.index.toNat = leg.index ∧ wire.offset.toNat = leg.offset ∧
    wire.length.toNat = leg.length
  canonicalPool : Hex.Canonical wire.pool leg.pool.bytes
  canonicalRecipient : Hex.Canonical wire.recipient leg.recipient.bytes

/-- The wire form of a compiled route says what the compiled route says, in canonical texts. -/
structure CompiledRoute.Pictured (compiled : CompiledRoute) (wire : WireCompiledRoute) : Prop where
  payload : Hex.Canonical wire.payload compiled.payload
  entryPoint : Address.parse wire.entryPoint = .ok compiled.entryPoint
  revision : wire.revision = compiled.revision
  tokenIn : Address.parse wire.tokenIn = .ok compiled.tokenIn
  tokenOut : Address.parse wire.tokenOut = .ok compiled.tokenOut
  amountIn : Amount.parse wire.amountIn = .ok compiled.amountIn
  amountOutMin : Amount.parse wire.amountOutMin = .ok compiled.amountOutMin
  legs : List.Forall₂ EncodedLeg.Pictured compiled.legs wire.legs
  canonicalEntryPoint : Hex.Canonical wire.entryPoint compiled.entryPoint.bytes
  canonicalTokenIn : Hex.Canonical wire.tokenIn compiled.tokenIn.bytes
  canonicalTokenOut : Hex.Canonical wire.tokenOut compiled.tokenOut.bytes
  canonicalAmountIn : Amount.Canonical wire.amountIn
  canonicalAmountOutMin : Amount.Canonical wire.amountOutMin

namespace EncodedLeg

variable {a b : EncodedLeg} {wire : WireEncodedLeg}

theorem pictured_ofLeg (leg : EncodedLeg) : leg.Pictured (.ofLeg leg) := by
  constructor
  case pool => exact Address.parse_text leg.pool
  case recipient => exact Address.parse_text leg.recipient
  case family => rfl
  case share => rfl
  case words =>
    rintro ⟨hindex, hoffset, hlength⟩
    exact ⟨UInt64.toNat_ofNat_of_lt' hindex, UInt64.toNat_ofNat_of_lt' hoffset,
      UInt64.toNat_ofNat_of_lt' hlength⟩
  case canonicalPool => exact Hex.canonical_marked leg.pool.bytes
  case canonicalRecipient => exact Hex.canonical_marked leg.recipient.bytes

theorem Pictured.unique (ha : a.Pictured wire) (hb : b.Pictured wire) (hfitsa : a.FitsWords)
    (hfitsb : b.FitsWords) : a = b := by
  obtain ⟨index, family, pool, recipient, offset, length, share⟩ := a
  obtain ⟨index', family', pool', recipient', offset', length', share'⟩ := b
  obtain ⟨hindex, hoffset, hlength⟩ := ha.words hfitsa
  obtain ⟨hindex', hoffset', hlength'⟩ := hb.words hfitsb
  obtain rfl : index = index' := hindex.symm.trans hindex'
  obtain rfl : offset = offset' := hoffset.symm.trans hoffset'
  obtain rfl : length = length' := hlength.symm.trans hlength'
  obtain rfl : family = family' := ha.family.symm.trans hb.family
  obtain rfl : share = share' := ha.share.symm.trans hb.share
  obtain rfl : pool = pool' := Except.ok.inj (ha.pool.symm.trans hb.pool)
  obtain rfl : recipient = recipient' := Except.ok.inj (ha.recipient.symm.trans hb.recipient)
  rfl

theorem eq_of_forall₂_pictured {as bs : List EncodedLeg} {wires : List WireEncodedLeg}
    (ha : List.Forall₂ Pictured as wires) (hb : List.Forall₂ Pictured bs wires)
    (hfitsa : ∀ leg ∈ as, leg.FitsWords) (hfitsb : ∀ leg ∈ bs, leg.FitsWords) : as = bs := by
  induction ha generalizing bs with
  | nil => exact (List.forall₂_nil_right_iff.mp hb).symm
  | cons hfirst _ ih =>
    obtain ⟨first', rest', hfirst', hrest', rfl⟩ := List.forall₂_cons_right_iff.mp hb
    obtain ⟨hfita, hfitsa⟩ := List.forall_mem_cons.mp hfitsa
    obtain ⟨hfitb, hfitsb⟩ := List.forall_mem_cons.mp hfitsb
    rw [hfirst.unique hfirst' hfita hfitb, ih hrest' hfitsa hfitsb]

end EncodedLeg

namespace CompiledRoute

variable {a b : CompiledRoute} {wire : WireCompiledRoute}

theorem pictured_ofCompiled (compiled : CompiledRoute) :
    compiled.Pictured (.ofCompiled compiled) := by
  constructor
  case payload => exact Hex.canonical_marked compiled.payload
  case entryPoint => exact Address.parse_text compiled.entryPoint
  case revision => rfl
  case tokenIn => exact Address.parse_text compiled.tokenIn
  case tokenOut => exact Address.parse_text compiled.tokenOut
  case amountIn => exact Amount.parse_text compiled.amountIn
  case amountOutMin => exact Amount.parse_text compiled.amountOutMin
  case legs =>
    show List.Forall₂ EncodedLeg.Pictured compiled.legs (compiled.legs.map WireEncodedLeg.ofLeg)
    rw [List.forall₂_map_right_iff, List.forall₂_same]
    exact fun leg _ => leg.pictured_ofLeg
  case canonicalEntryPoint => exact Hex.canonical_marked compiled.entryPoint.bytes
  case canonicalTokenIn => exact Hex.canonical_marked compiled.tokenIn.bytes
  case canonicalTokenOut => exact Hex.canonical_marked compiled.tokenOut.bytes
  case canonicalAmountIn => exact Amount.canonical_text compiled.amountIn
  case canonicalAmountOutMin => exact Amount.canonical_text compiled.amountOutMin

theorem Pictured.unique (ha : a.Pictured wire) (hb : b.Pictured wire) (hfitsa : a.FitsWords)
    (hfitsb : b.FitsWords) : a = b := by
  obtain ⟨payload, entryPoint, revision, tokenIn, tokenOut, amountIn, amountOutMin, legs⟩ := a
  obtain ⟨payload', entryPoint', revision', tokenIn', tokenOut', amountIn', amountOutMin',
    legs'⟩ := b
  obtain rfl : payload = payload' := ha.payload.unique hb.payload
  obtain rfl : entryPoint = entryPoint' := Except.ok.inj (ha.entryPoint.symm.trans hb.entryPoint)
  obtain rfl : revision = revision' := ha.revision.symm.trans hb.revision
  obtain rfl : tokenIn = tokenIn' := Except.ok.inj (ha.tokenIn.symm.trans hb.tokenIn)
  obtain rfl : tokenOut = tokenOut' := Except.ok.inj (ha.tokenOut.symm.trans hb.tokenOut)
  obtain rfl : amountIn = amountIn' := Except.ok.inj (ha.amountIn.symm.trans hb.amountIn)
  obtain rfl : amountOutMin = amountOutMin' :=
    Except.ok.inj (ha.amountOutMin.symm.trans hb.amountOutMin)
  obtain rfl : legs = legs' :=
    EncodedLeg.eq_of_forall₂_pictured ha.legs hb.legs hfitsa hfitsb
  rfl

/-- The wire form of a compiled route is its faithful image, and the image of no other. -/
theorem ofCompiled_faithful (compiled : CompiledRoute) :
    compiled.Pictured (.ofCompiled compiled) ∧
      ∀ other : CompiledRoute, compiled.FitsWords → other.FitsWords →
        WireCompiledRoute.ofCompiled other = .ofCompiled compiled → other = compiled := by
  refine ⟨pictured_ofCompiled compiled, fun other hfits hfits' hsame => ?_⟩
  have hpictured := pictured_ofCompiled other
  rw [hsame] at hpictured
  exact hpictured.unique (pictured_ofCompiled compiled) hfits' hfits

/-- Two amounts that differ are told apart in the image. -/
theorem ofCompiled_faithful_route :
    Sample.compiled.Pictured (.ofCompiled Sample.compiled) ∧ Sample.compiled.FitsWords ∧
      WireCompiledRoute.ofCompiled { Sample.compiled with amountIn := 0 } ≠
        .ofCompiled Sample.compiled := by
  have hfits : Sample.compiled.FitsWords :=
    Compiler.fitsWords_of_compile Sample.compile_route (by decide +kernel)
  obtain ⟨hpictured, honly⟩ := ofCompiled_faithful Sample.compiled
  refine ⟨hpictured, hfits, fun hsame => ?_⟩
  have hamount := congrArg amountIn (honly { Sample.compiled with amountIn := 0 } hfits hfits hsame)
  exact absurd hamount (by decide)

/-- Nothing to pay, addresses of zeros and amounts of zero. -/
example : WireCompiledRoute.ofCompiled
    ⟨[], Sample.address 0, .v2, Sample.address 0, Sample.address 1, 0, 0, []⟩ =
      ⟨"0x", "0x0000000000000000000000000000000000000000", .v2,
        "0x0000000000000000000000000000000000000000",
        "0x0101010101010101010101010101010101010101", "0", "0", []⟩ := by
  decide +kernel

end CompiledRoute

end SwapCalldata
