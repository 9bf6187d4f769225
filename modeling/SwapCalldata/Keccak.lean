/-!
The Keccak-256 hash: the sponge over the permutation of 25 lanes of 64 bits, with 136 bytes a block
and the padding byte 1. The state is a vector of lanes, lane (x, y) at index x + 5 y.
-/
namespace SwapCalldata.Keccak

abbrev State := Vector UInt64 25

/-- The lane in column `x` and row `y`, both taken modulo 5. -/
def lane (state : State) (x y : Nat) : UInt64 :=
  state.get ⟨x % 5 + 5 * (y % 5), by omega⟩

/-- The state with lane (x, y) given by a function. -/
def tabulate (f : Nat → Nat → UInt64) : State :=
  Vector.ofFn fun i : Fin 25 => f (i.val % 5) (i.val / 5)

def rotateLeft (word : UInt64) (amount : Nat) : UInt64 :=
  if amount = 0 then word
  else (word <<< UInt64.ofNat amount) ||| (word >>> UInt64.ofNat (64 - amount))

/-- How far each lane is rotated, lane (x, y) at index x + 5 y. -/
def rotations : Vector Nat 25 :=
  #v[0, 1, 62, 28, 27, 36, 44, 6, 55, 20, 3, 10, 43, 25, 39, 41, 45, 15, 21, 8, 18, 2, 61, 56, 14]

/-- The constant of each of the 24 rounds. -/
def roundConstants : List UInt64 :=
  [0x0000000000000001, 0x0000000000008082, 0x800000000000808a, 0x8000000080008000,
    0x000000000000808b, 0x0000000080000001, 0x8000000080008081, 0x8000000000008009,
    0x000000000000008a, 0x0000000000000088, 0x0000000080008009, 0x000000008000000a,
    0x000000008000808b, 0x800000000000008b, 0x8000000000008089, 0x8000000000008003,
    0x8000000000008002, 0x8000000000000080, 0x000000000000800a, 0x800000008000000a,
    0x8000000080008081, 0x8000000000008080, 0x0000000080000001, 0x8000000080008008]

/-- Adds to each lane the parities of two neighbouring columns. -/
def theta (state : State) : State :=
  let parity : Vector UInt64 5 := Vector.ofFn fun x : Fin 5 =>
    lane state x.val 0 ^^^ lane state x.val 1 ^^^ lane state x.val 2 ^^^ lane state x.val 3
      ^^^ lane state x.val 4
  let column (x : Nat) : UInt64 := parity.get ⟨x % 5, by omega⟩
  tabulate fun x y => lane state x y ^^^ column (x + 4) ^^^ rotateLeft (column (x + 1)) 1

/-- Rotates each lane and moves lane (x, y) to column y and row 2 x + 3 y. -/
def rhoPi (state : State) : State :=
  tabulate fun x y =>
    let source := (x + 3 * y) % 5
    rotateLeft (lane state source x) (rotations.get ⟨source + 5 * (x % 5), by omega⟩)

/-- Combines each lane with the two that follow it in its row. -/
def chi (state : State) : State :=
  tabulate fun x y => lane state x y ^^^ (~~~lane state (x + 1) y &&& lane state (x + 2) y)

def round (state : State) (constant : UInt64) : State :=
  let mixed := chi (rhoPi (theta state))
  mixed.set 0 (mixed[0] ^^^ constant)

def permute (state : State) : State := roundConstants.foldl round state

/-- The number of bytes of a block. -/
def blockLength : Nat := 136

/-- A word read from bytes, the least significant first. -/
def littleEndian (bytes : List UInt8) : UInt64 :=
  bytes.foldr (fun byte word => (word <<< 8) ||| byte.toUInt64) 0

/-- Adds a block to the first lanes and permutes. -/
def absorb (state : State) (block : List UInt8) : State :=
  permute (Vector.ofFn fun i : Fin 25 =>
    state[i] ^^^ littleEndian ((block.drop (8 * i.val)).take 8))

/-- The message closed by the bit 1, zeros and the bit 1, up to whole blocks. -/
def pad (message : List UInt8) : List UInt8 :=
  let gap := blockLength - message.length % blockLength
  if gap = 1 then message ++ [0x81]
  else message ++ 0x01 :: (List.replicate (gap - 2) 0 ++ [0x80])

/-- Absorbs the blocks of a padded message in order. -/
def absorbAll (state : State) : List UInt8 → State
  | [] => state
  | byte :: rest =>
    absorbAll (absorb state ((byte :: rest).take blockLength)) (rest.drop (blockLength - 1))
  termination_by message => message.length
  decreasing_by
    simp only [List.length_drop, List.length_cons]
    omega

/-- The 32 bytes of the hash of a message. -/
def hash256 (message : List UInt8) : List UInt8 :=
  let state := absorbAll (Vector.replicate 25 0) (pad message)
  (List.range 32).map fun i => (lane state (i / 8) 0 >>> UInt64.ofNat (8 * (i % 8))).toUInt8

end SwapCalldata.Keccak
