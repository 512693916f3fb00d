import Microlab.Word

/-!
# Memory

A memory of `2 ^ n` bytes is a binary tree of depth `n`, and an address descends
by its low `n` bits. So addresses wrap, and no access fails. A blank memory shares
its subtrees.
-/

namespace Microlab

inductive Memory : Nat → Type where
  | cell (b : Byte) : Memory 0
  | fork {n : Nat} (low high : Memory n) : Memory (n + 1)
  deriving DecidableEq

namespace Memory

/-- All bytes zero. -/
def blank : (n : Nat) → Memory n
  | 0 => cell 0
  | n + 1 => let half := blank n; fork half half

/-- Every byte set to zero. -/
def clear {n : Nat} : Memory n → Memory n
  | cell _ => cell 0
  | fork low high => fork low.clear high.clear

def read {n : Nat} (m : Memory n) (address : Address) : Byte :=
  match m with
  | cell b => b
  | @fork n low high => if address.getLsbD n then high.read address else low.read address

def write {n : Nat} (m : Memory n) (address : Address) (b : Byte) : Memory n :=
  match m with
  | cell _ => cell b
  | @fork n low high =>
    if address.getLsbD n then fork low (high.write address b)
    else fork (low.write address b) high

/-- How many bytes the memory holds. -/
def size {n : Nat} (_ : Memory n) : Nat := 1 <<< n

/-- The word at an address, low byte first. -/
def readWord {n : Nat} (m : Memory n) (address : Address) : Word :=
  Word.ofHalves (m.read (address + 1)) (m.read address)

def writeWord {n : Nat} (m : Memory n) (address : Address) (w : Word) : Memory n :=
  (m.write address (Word.low w)).write (address + 1) (Word.high w)

/-- Stores bytes one after the other. Later ones overwrite earlier ones where a
long block wraps onto itself. -/
def load {n : Nat} (m : Memory n) (address : Address) : List Byte → Memory n
  | [] => m
  | b :: bs => (m.write address b).load (address + 1) bs

/-- The bytes at consecutive addresses. As many are counted as there are addresses
and then from zero again. -/
def dump {n : Nat} (m : Memory n) (start : Address) (count : Nat) : List Byte :=
  (List.range (BitVec.ofNat 32 count).toNat).map fun i => m.read (start + BitVec.ofNat 32 i)

/-- The bytes that are not zero, with their addresses in ascending order; the
memory starts at `base`. -/
def nonzero {n : Nat} (m : Memory n) (base : Nat) : List (Nat × Byte) :=
  match m with
  | cell b => if b = 0 then [] else [(base, b)]
  | @fork n low high => low.nonzero base ++ high.nonzero (base + 1 <<< n)

example : ((blank 4).write 0x15 0xAA).read 5 = 0xAA := by decide

end Memory

end Microlab
