import Mathlib.Data.UInt
import Mathlib.Data.List.Basic

/-!
# Keccak-256

The hash in executable form: a sponge of 136-byte blocks over the permutation of 25 lanes.
-/

namespace Keccak256

/-- The 25 lanes, lane `(x, y)` at place `x + 5 * y`. -/
abbrev State := List UInt64

def lane (s : State) (x y : ℕ) : UInt64 := s.getD (x % 5 + 5 * (y % 5)) 0

def rotl (v : UInt64) (n : ℕ) : UInt64 := (v <<< UInt64.ofNat n) ||| (v >>> UInt64.ofNat (64 - n))

/-- How far each lane turns. -/
def offsets : List ℕ :=
  [0, 1, 62, 28, 27, 36, 44, 6, 55, 20, 3, 10, 43, 25, 39, 41, 45, 15, 21, 8, 18, 2, 61, 56, 14]

def roundConstants : List UInt64 :=
  [0x0000000000000001, 0x0000000000008082, 0x800000000000808A, 0x8000000080008000,
    0x000000000000808B, 0x0000000080000001, 0x8000000080008081, 0x8000000000008009,
    0x000000000000008A, 0x0000000000000088, 0x0000000080008009, 0x000000008000000A,
    0x000000008000808B, 0x800000000000008B, 0x8000000000008089, 0x8000000000008003,
    0x8000000000008002, 0x8000000000000080, 0x000000000000800A, 0x800000008000000A,
    0x8000000080008081, 0x8000000000008080, 0x0000000080000001, 0x8000000080008008]

def tabulate (f : ℕ → ℕ → UInt64) : State := (List.range 25).map fun i => f (i % 5) (i / 5)

def theta (s : State) : State :=
  let column (x : ℕ) := lane s x 0 ^^^ lane s x 1 ^^^ lane s x 2 ^^^ lane s x 3 ^^^ lane s x 4
  tabulate fun x y => lane s x y ^^^ column (x + 4) ^^^ rotl (column (x + 1)) 1

def rhoPi (s : State) : State :=
  tabulate fun x y => rotl (lane s (x + 3 * y) x) (offsets.getD ((x + 3 * y) % 5 + 5 * x) 0)

def chi (s : State) : State :=
  tabulate fun x y => lane s x y ^^^ (~~~lane s (x + 1) y &&& lane s (x + 2) y)

def round (s : State) (constant : UInt64) : State :=
  match chi (rhoPi (theta s)) with
  | [] => []
  | l :: ls => (l ^^^ constant) :: ls

/-- The lanes of a block, each eight bytes with the low one first. -/
def lanes (block : List UInt8) : List UInt64 :=
  (List.range 17).map fun i =>
    ((block.drop (8 * i)).take 8).foldr (fun b acc => acc <<< 8 ||| b.toUInt64) 0

def absorb (s : State) (block : List UInt8) : State :=
  let mixed := tabulate fun x y => lane s x y ^^^ (lanes block).getD (x + 5 * y) 0
  roundConstants.foldl round mixed

/-- Fill the last block up. -/
def pad (bytes : List UInt8) : List UInt8 :=
  match 136 - bytes.length % 136 with
  | 1 => bytes ++ [0x81]
  | n => bytes ++ 0x01 :: List.replicate (n - 2) 0 ++ [0x80]

def blocks (bytes : List UInt8) : List (List UInt8) :=
  (List.range (bytes.length / 136)).map fun i => (bytes.drop (136 * i)).take 136

def hash (bytes : List UInt8) : Vector UInt8 32 :=
  let s := (blocks (pad bytes)).foldl absorb (List.replicate 25 0)
  Vector.ofFn fun i => (lane s (i / 8) 0 >>> UInt64.ofNat (8 * (i % 8))).toUInt8

example : ((hash []).toList.take 4) = [0xc5, 0xd2, 0x46, 0x01] := by decide +kernel

end Keccak256
