/-!
The hash Keccak-256. The state is a list of twenty-five 64-bit lanes; a message
is padded, absorbed in blocks of 136 bytes, and the first four lanes of the last
state are the digest.
-/

namespace VaultTransfers.Keccak

abbrev State := List UInt64

def rotl (w : UInt64) (n : Nat) : UInt64 :=
  if n = 0 then w else w <<< UInt64.ofNat n ||| w >>> UInt64.ofNat (64 - n)

def lane (s : State) (x y : Nat) : UInt64 :=
  s.getD (x % 5 + 5 * (y % 5)) 0

/-- Builds a state from its lane at each column and row. -/
def tabulate (f : Nat → Nat → UInt64) : State :=
  (List.range 25).map fun i => f (i % 5) (i / 5)

def parity (s : State) (x : Nat) : UInt64 :=
  lane s x 0 ^^^ lane s x 1 ^^^ lane s x 2 ^^^ lane s x 3 ^^^ lane s x 4

def theta (s : State) : State :=
  let sums := (List.range 5).map (parity s)
  let sum (x : Nat) := sums.getD (x % 5) 0
  tabulate fun x y => lane s x y ^^^ sum (x + 4) ^^^ rotl (sum (x + 1)) 1

/-- How far each lane is rotated, row by row. -/
def offsets : List Nat :=
  [0, 1, 62, 28, 27, 36, 44, 6, 55, 20, 3, 10, 43, 25, 39, 41, 45, 15, 21, 8, 18, 2, 61, 56, 14]

def rho (s : State) : State :=
  List.zipWith rotl s offsets

def pi (s : State) : State :=
  tabulate fun x y => lane s (x + 3 * y) x

def chi (s : State) : State :=
  tabulate fun x y => lane s x y ^^^ (~~~ lane s (x + 1) y &&& lane s (x + 2) y)

def roundConstants : List UInt64 :=
  [0x0000000000000001, 0x0000000000008082, 0x800000000000808A, 0x8000000080008000,
   0x000000000000808B, 0x0000000080000001, 0x8000000080008081, 0x8000000000008009,
   0x000000000000008A, 0x0000000000000088, 0x0000000080008009, 0x000000008000000A,
   0x000000008000808B, 0x800000000000008B, 0x8000000000008089, 0x8000000000008003,
   0x8000000000008002, 0x8000000000000080, 0x000000000000800A, 0x800000008000000A,
   0x8000000080008081, 0x8000000000008080, 0x0000000080000001, 0x8000000080008008]

def iota (constant : UInt64) : State → State
  | [] => []
  | first :: rest => (first ^^^ constant) :: rest

def permute (s : State) : State :=
  roundConstants.foldl (fun s c => iota c (chi (pi (rho (theta s))))) s

/-- The bytes of a block that one absorption takes in. -/
def rate : Nat := 136

/-- A one bit, zeros, and a one bit fill the last block up. -/
def pad (message : List UInt8) : List UInt8 :=
  let gap := rate - message.length % rate
  if gap = 1 then message ++ [0x81]
  else message ++ 0x01 :: List.replicate (gap - 2) 0x00 ++ [0x80]

/-- Eight bytes as a lane, lowest first. -/
def laneOfBytes (bytes : List UInt8) : UInt64 :=
  bytes.foldr (fun b w => w <<< 8 ||| b.toUInt64) 0

def bytesOfLane (w : UInt64) : List UInt8 :=
  (List.range 8).map fun i => (w >>> UInt64.ofNat (8 * i)).toUInt8

def absorb (s : State) (block : List UInt8) : State :=
  permute (tabulate fun x y =>
    let i := x + 5 * y
    if i < rate / 8 then lane s x y ^^^ laneOfBytes ((block.drop (8 * i)).take 8) else lane s x y)

/-- The 32 bytes of a message's digest. -/
def digest (message : List UInt8) : List UInt8 :=
  let padded := pad message
  let blocks := (List.range (padded.length / rate)).map fun i => (padded.drop (rate * i)).take rate
  let final := blocks.foldl absorb (List.replicate 25 0)
  (final.take 4).flatMap bytesOfLane

end VaultTransfers.Keccak
