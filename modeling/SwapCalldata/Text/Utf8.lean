/-!
Bytes as UTF-8 text. Bytes that are no text still have a reading: a broken character is one hole, and
it ends before the first byte that cannot continue it.
-/
namespace SwapCalldata.Utf8

/-- Whether a second byte is barred after a lead byte although it continues a character: the
character would have a shorter form, be a surrogate or lie above the last code point. -/
def isBarred (lead second : UInt8) : Bool :=
  (lead == 0xE0 && second < 0xA0) || (lead == 0xED && 0x9F < second)
    || (lead == 0xF0 && second < 0x90) || (lead == 0xF4 && 0x8F < second)

/-- Takes the `more` bytes that a character with this value so far still needs. -/
def finish (value : Nat) : (more : Nat) → List UInt8 → Option Char × List UInt8
  | 0, rest => (some (Char.ofNat value), rest)
  | _ + 1, [] => (none, [])
  | more + 1, byte :: rest =>
    if 0x80 ≤ byte && byte ≤ 0xBF then finish (64 * value + byte.toNat % 64) more rest
    else (none, byte :: rest)

/-- The character that starts with a byte, or none where it is broken, and the bytes after it. -/
def next (lead : UInt8) (rest : List UInt8) : Option Char × List UInt8 :=
  if lead < 0x80 then finish lead.toNat 0 rest
  else if rest.head?.any (isBarred lead) then (none, rest)
  else if 0xC2 ≤ lead && lead ≤ 0xDF then finish (lead.toNat - 0xC0) 1 rest
  else if 0xE0 ≤ lead && lead ≤ 0xEF then finish (lead.toNat - 0xE0) 2 rest
  else if 0xF0 ≤ lead && lead ≤ 0xF4 then finish (lead.toNat - 0xF0) 3 rest
  else (none, rest)

theorem length_finish_le (value more : Nat) (rest : List UInt8) :
    (finish value more rest).2.length ≤ rest.length := by
  induction more generalizing value rest with
  | zero => simp [finish]
  | succ more ih =>
    cases rest with
    | nil => simp [finish]
    | cons byte rest =>
      rw [finish]
      split
      · exact Nat.le_succ_of_le (ih _ rest)
      · exact Nat.le_refl _

theorem length_next_le (lead : UInt8) (rest : List UInt8) :
    (next lead rest).2.length ≤ rest.length := by
  unfold next
  repeat' split
  all_goals first
    | exact length_finish_le _ _ rest
    | exact Nat.le_refl _

/-- The characters of bytes, in order, with a hole for each broken one. -/
def decode : List UInt8 → List (Option Char)
  | [] => []
  | lead :: rest =>
    have : (next lead rest).2.length ≤ rest.length := length_next_le lead rest
    (next lead rest).1 :: decode (next lead rest).2
  termination_by bytes => bytes.length
  decreasing_by
    simp only [List.length_cons]
    omega

/-- The text of bytes, where they have no hole. -/
def text? (bytes : List UInt8) : Option String := ((decode bytes).mapM id).map String.ofList

/-- The text of bytes with the replacement character in each hole. -/
def shown (bytes : List UInt8) : String :=
  String.ofList ((decode bytes).map fun c => c.getD '\uFFFD')

end SwapCalldata.Utf8
