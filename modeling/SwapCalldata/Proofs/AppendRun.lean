import SwapCalldata.Proofs.Appending

/-!
Runs of appends to a buffer. What a run adds is the joined encodings of the primitives that were not
refused. Where the widths of unsigned integers are known, the bytes give their values back, and the
text of a buffer gives its bytes back.
-/
namespace SwapCalldata

/-- Digits of bytes spell only these bytes. -/
theorem Hex.encode_inj {a b : List UInt8} (h : encode a = encode b) : a = b := by
  have hdecode := congrArg decode? h
  rw [decode?_encode, decode?_encode] at hdecode
  exact Option.some.inj hdecode

theorem Hex.marked_inj {a b : List UInt8} (h : marked a = marked b) : a = b := by
  unfold marked at h
  have hchars := String.ofList_injective h
  exact encode_inj (List.cons.inj (List.cons.inj hchars).2).2

namespace Buffer

variable {buffer : Buffer}

theorem bytes_step (buffer : Buffer) (primitive : Primitive) :
    (buffer.step primitive).bytes = buffer.bytes ++ primitive.encode.toOption.getD [] := by
  cases hencode : primitive.encode with
  | error error =>
    rw [step_of_error (append_eq_error_iff.mpr hencode)]
    exact (List.append_nil buffer.bytes).symm
  | ok bytes =>
    rw [step_of_ok (append_eq_ok_iff.mpr ⟨bytes, hencode, rfl⟩)]
    rfl

/-- A run adds the encodings of the primitives that were not refused, in order. -/
theorem bytes_run (buffer : Buffer) (primitives : List Primitive) :
    (buffer.run primitives).bytes = buffer.bytes ++ (Primitive.encodings primitives).flatten := by
  induction primitives generalizing buffer with
  | nil => exact (List.append_nil buffer.bytes).symm
  | cons primitive rest ih =>
    show ((buffer.step primitive).run rest).bytes = _
    rw [ih, bytes_step, List.append_assoc]
    unfold Primitive.encodings
    rw [List.filterMap_cons]
    cases primitive.encode.toOption <;> rfl

/-! ### Unsigned integers of known widths -/

/-- An unsigned integer with the width it is given. -/
abbrev Field := Width × Nat

/-- The value fits the width. -/
def Field.Fits (field : Field) : Prop := field.2 < 2 ^ field.1.bits

instance (field : Field) : Decidable field.Fits := by
  unfold Field.Fits
  infer_instance

def uints (fields : List Field) : List Primitive := fields.map fun field => .uint field.1 field.2

/-- The fields that are not refused. -/
def fitting (fields : List Field) : List Field := fields.filter fun field => field.Fits

/-- The bytes of the fields that are not refused. -/
def fieldBytes (fields : List Field) : List UInt8 := (Primitive.encodings (uints fields)).flatten

theorem fieldBytes_cons_of_fits {field : Field} (h : field.Fits) (rest : List Field) :
    fieldBytes (field :: rest) = Bytes.bigEndian field.1.bytes field.2 ++ fieldBytes rest := by
  have hencode := (Primitive.encode_uint field.1 field.2).trans (if_pos h)
  unfold fieldBytes uints Primitive.encodings
  rw [List.map_cons, List.filterMap_cons, hencode]
  rfl

theorem fieldBytes_cons_of_not_fits {field : Field} (h : ¬field.Fits) (rest : List Field) :
    fieldBytes (field :: rest) = fieldBytes rest := by
  have hencode := (Primitive.encode_uint field.1 field.2).trans (if_neg h)
  unfold fieldBytes uints Primitive.encodings
  rw [List.map_cons, List.filterMap_cons, hencode]
  rfl

theorem fieldBytes_fitting (fields : List Field) :
    fieldBytes (fitting fields) = fieldBytes fields := by
  induction fields with
  | nil => rfl
  | cons field rest ih =>
    unfold fitting at ih ⊢
    by_cases hfits : field.Fits
    · rw [List.filter_cons_of_pos (by simpa using hfits), fieldBytes_cons_of_fits hfits, ih,
        fieldBytes_cons_of_fits hfits]
    · rw [List.filter_cons_of_neg (by simpa using hfits), ih, fieldBytes_cons_of_not_fits hfits]

/-- The number of bytes that fields of these widths take. -/
def room (widths : List Width) : Nat := (widths.map Width.bytes).sum

theorem length_fieldBytes_le (fields : List Field) :
    (fieldBytes fields).length ≤ room (fields.map Prod.fst) := by
  induction fields with
  | nil => exact Nat.le_refl 0
  | cons field rest ih =>
    have hroom : room ((field :: rest).map Prod.fst) =
        field.1.bytes + room (rest.map Prod.fst) := rfl
    by_cases hfits : field.Fits
    · rw [fieldBytes_cons_of_fits hfits, List.length_append, Bytes.length_bigEndian, hroom]
      exact Nat.add_le_add_left ih _
    · rw [fieldBytes_cons_of_not_fits hfits, hroom]
      exact ih.trans (Nat.le_add_left _ _)

theorem length_fieldBytes {fields : List Field} (h : ∀ field ∈ fields, field.Fits) :
    (fieldBytes fields).length = room (fields.map Prod.fst) := by
  induction fields with
  | nil => rfl
  | cons field rest ih =>
    obtain ⟨hfirst, hrest⟩ := List.forall_mem_cons.mp h
    rw [fieldBytes_cons_of_fits hfirst, List.length_append, Bytes.length_bigEndian, ih hrest]
    rfl

/-- Fields that all fit share their bytes with no other fields of the same widths. A field that is
refused would leave the bytes too short. -/
theorem fieldBytes_inj {a b : List Field} (hwidths : a.map Prod.fst = b.map Prod.fst)
    (hfits : ∀ field ∈ a, field.Fits) (h : fieldBytes a = fieldBytes b) : a = b := by
  induction a generalizing b with
  | nil => exact (List.map_eq_nil_iff.mp hwidths.symm).symm
  | cons field rest ih =>
    cases b with
    | nil => cases hwidths
    | cons other rest' =>
      obtain ⟨hwidth, hwidths'⟩ := List.cons.inj hwidths
      obtain ⟨hfirst, hrest⟩ := List.forall_mem_cons.mp hfits
      rw [fieldBytes_cons_of_fits hfirst] at h
      have hother : other.Fits := by
        by_contra hnot
        rw [fieldBytes_cons_of_not_fits hnot] at h
        have hlength := congrArg List.length h
        have hshort := length_fieldBytes_le rest'
        rw [List.length_append, Bytes.length_bigEndian, length_fieldBytes hrest, hwidths'] at hlength
        have hpos := field.1.bytes_pos
        omega
      rw [fieldBytes_cons_of_fits hother, ← hwidth] at h
      obtain ⟨hbytes, htail⟩ := List.append_inj h (by simp)
      have hvalue : field.2 = other.2 := by
        have hread := congrArg Bytes.toNat hbytes
        unfold Field.Fits at hfirst hother
        rw [← hwidth] at hother
        rwa [Bytes.toNat_bigEndian (by rwa [Nat.one_shiftLeft]),
          Bytes.toNat_bigEndian (by rwa [Nat.one_shiftLeft])] at hread
      rw [ih hwidths' hrest htail, Prod.ext hwidth hvalue]

theorem fieldBytes_eq_of_run_eq {a b : List Field}
    (h : buffer.run (uints a) = buffer.run (uints b)) : fieldBytes a = fieldBytes b := by
  have hbytes := congrArg Buffer.bytes h
  rw [bytes_run, bytes_run] at hbytes
  exact List.append_cancel_left hbytes

/-! ### The laws -/

/-- What appends to a buffer do, one at a time and in runs. The values that `values` and `fitting`
compare are the accepted ones: a refused value leaves no byte, so 256 and 257 in 8 bits are the same
to a buffer. -/
structure Appends (buffer : Buffer) : Prop where
  run : ∀ primitives : List Primitive, (buffer.run primitives).bytes =
    buffer.bytes ++ (Primitive.encodings primitives).flatten
  accepted : ∀ (primitive : Primitive) (after : Buffer), buffer.append primitive = .ok after ↔
    buffer.step primitive = after ∧
      ∃ bytes, primitive.encode = .ok bytes ∧ after.bytes = buffer.bytes ++ bytes
  refused : ∀ (primitive : Primitive) (error : EncodingError),
    buffer.append primitive = .error error → buffer.step primitive = buffer
  uint : ∀ (width : Width) (value : Nat),
    (∃ after, buffer.append (.uint width value) = .ok after) ↔ value < 2 ^ width.bits
  uintBytes : ∀ (width : Width) (value : Nat) (after : Buffer),
    buffer.append (.uint width value) = .ok after →
      ∃ bytes, after.bytes = buffer.bytes ++ bytes ∧ bytes.length = width.bits / 8 ∧
        Bytes.toNat bytes = value
  padding : ∀ (width : Width) (value : Nat), value < 2 ^ width.bits →
    (Bytes.minimal value).length ≤ width.bits / 8
  address : ∀ bytes : List UInt8,
    (∃ after, buffer.append (.address bytes) = .ok after) ↔ bytes.length = 20
  values : ∀ a b : List Field, a.map Prod.fst = b.map Prod.fst → (∀ field ∈ a, field.Fits) →
    buffer.run (uints a) = buffer.run (uints b) → a = b
  fitting : ∀ a b : List Field, (fitting a).map Prod.fst = (fitting b).map Prod.fst →
    buffer.run (uints a) = buffer.run (uints b) → fitting a = fitting b
  text : ∀ other : Buffer, buffer.text = other.text → buffer = other

theorem exists_append_iff {primitive : Primitive} :
    (∃ after, buffer.append primitive = .ok after) ↔ ∃ bytes, primitive.encode = .ok bytes := by
  simp only [append_eq_ok_iff]
  constructor
  · rintro ⟨_, bytes, hbytes, _⟩
    exact ⟨bytes, hbytes⟩
  · rintro ⟨bytes, hbytes⟩
    exact ⟨_, bytes, hbytes, rfl⟩

/-- Every buffer takes primitives by these laws, the empty one among them. -/
theorem appends (buffer : Buffer) : buffer.Appends := by
  constructor
  case run => exact buffer.bytes_run
  case accepted =>
    intro primitive after
    constructor
    · intro h
      obtain ⟨bytes, hbytes, rfl⟩ := append_eq_ok_iff.mp h
      exact ⟨step_of_ok h, bytes, hbytes, rfl⟩
    · rintro ⟨_, bytes, hbytes, hafter⟩
      exact append_eq_ok_iff.mpr ⟨bytes, hbytes, congrArg Buffer.mk hafter.symm⟩
  case refused => exact fun primitive error h => step_of_error h
  case uint =>
    intro width value
    rw [exists_append_iff, Primitive.encode_uint]
    split
    next h => simp [h]
    next h => simp [h]
  case uintBytes =>
    intro width value after h
    obtain ⟨bytes, hbytes, rfl⟩ := append_eq_ok_iff.mp h
    rw [Primitive.encode_uint] at hbytes
    split at hbytes
    next hfit =>
      obtain rfl := Except.ok.inj hbytes
      refine ⟨_, rfl, ?_, Bytes.toNat_bigEndian (by rwa [Nat.one_shiftLeft])⟩
      rw [Bytes.length_bigEndian, width.bits_div]
    next => cases hbytes
  case padding =>
    intro width value h
    rw [width.bits_div]
    exact width.length_minimal_le h
  case address =>
    intro bytes
    rw [exists_append_iff, Primitive.encode]
    split
    next h => simp [h]
    next h => simp [h]
  case values =>
    intro a b hwidths hfits h
    exact fieldBytes_inj hwidths hfits (fieldBytes_eq_of_run_eq h)
  case fitting =>
    intro a b hwidths h
    have hfits : ∀ field ∈ Buffer.fitting a, field.Fits := fun field hfield => by
      simpa using (List.mem_filter.mp hfield).2
    apply fieldBytes_inj hwidths hfits
    rw [fieldBytes_fitting, fieldBytes_fitting, fieldBytes_eq_of_run_eq h]
  case text => exact fun other h => congrArg Buffer.mk (Hex.marked_inj h)

example : (empty.run [.uint .w16 258, .uint .w8 256, .uint .w24 0, .bool true]).bytes =
    [1, 2, 0, 0, 0, 1] := by
  decide +kernel

end Buffer

end SwapCalldata
