import LegacyImage.Bytes

/-!
Prefix codes, as trees that are walked a bit at a time. A code is given by the length of each
symbol's code word; words of one length follow each other in the order of their symbols, and longer
words follow shorter ones. So the leaves of the tree, from left to right, are the symbols sorted by
length.
-/

namespace LegacyImage.Deflate

/-- A prefix code: what the bits seen so far lead to. -/
inductive Code
  | none
  | symbol (value : Nat)
  | branch (zero one : Code)
deriving DecidableEq, Repr

namespace Code

def maxLength : Nat := 15

/-- The symbols that have a code word, with its length, sorted by length. -/
def sorted (lengths : List Nat) : List (Nat × Nat) :=
  (List.range maxLength).flatMap fun l => lengths.zipIdx.filter fun p => p.1 = l + 1

/-- The subtree `depth` bits below the root, built from the symbols not yet placed, and the symbols
that are left after it. `fuel` is how much deeper a word may be. -/
def build : Nat → Nat → List (Nat × Nat) → Code × List (Nat × Nat)
  | _, _, [] => (none, [])
  | 0, depth, (length, value) :: rest =>
    if length = depth then (symbol value, rest) else (none, (length, value) :: rest)
  | fuel + 1, depth, (length, value) :: rest =>
    if length = depth then (symbol value, rest)
    else
      let (zero, left) := build fuel (depth + 1) ((length, value) :: rest)
      let (one, left) := build fuel (depth + 1) left
      (branch zero one, left)

/-- The code with these lengths, a length of zero for a symbol without a word. At least one bit is
read before anything is decided. -/
def ofLengths (lengths : List Nat) : Code :=
  let (zero, left) := build (maxLength - 1) 1 (sorted lengths)
  branch zero (build (maxLength - 1) 1 left).1

/-- How much of the space of words is taken, in units of the longest word. -/
def used (lengths : List Nat) : Nat :=
  lengths.foldl (fun taken l => if l = 0 then taken else taken + 2 ^ (maxLength - l)) 0

def isComplete (lengths : List Nat) : Bool := used lengths = 2 ^ maxLength

/-- Whether the words take all the space, or there is no word but one of a single bit. -/
def isCompleteOrSingle (lengths : List Nat) : Bool :=
  isComplete lengths || used lengths ≤ 2 ^ maxLength && lengths.all (· ≤ 1)

end Code

end LegacyImage.Deflate
