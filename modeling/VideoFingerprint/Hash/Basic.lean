/-!
The 256-bit hash of a frame. Bit `k` belongs to the `k`th coefficient of the frame's spectrum,
and bit `0` is the least significant one, so a hash is also a number below `2 ^ 256`. Words,
bands and digits are views of that number.
-/

namespace VideoFingerprint

/-- A 256-bit perceptual hash. -/
structure Hash where
  value : BitVec 256
deriving DecidableEq

namespace Hash

def size : Nat := 256

/-! ### Bits and words -/

/-- The bits of a hash, least significant first. -/
def bits (h : Hash) : List Bool := (List.range size).map h.value.getLsbD

def bit? (h : Hash) (i : Nat) : Option Bool :=
  if i < size then some (h.value.getLsbD i) else none

/-- The number that bits write, least significant first. -/
def numberOfBits : List Bool → Nat
  | [] => 0
  | b :: bs => b.toNat + 2 * numberOfBits bs

/-- The hash with the given bits, least significant first. Missing bits are zero, and bits past
the last one of a hash are dropped. -/
def ofBits (bs : List Bool) : Hash := ⟨BitVec.ofNat 256 (numberOfBits bs)⟩

/-- The `i`th 64-bit word, least significant first. -/
def word (h : Hash) (i : Nat) : BitVec 64 := h.value.extractLsb' (64 * i) 64

/-- The four words of a hash, least significant first. -/
def words (h : Hash) : List (BitVec 64) := (List.range 4).map h.word

/-- The hash with the given words, least significant first. -/
def ofWords (w0 w1 w2 w3 : BitVec 64) : Hash := ⟨w3 ++ w2 ++ w1 ++ w0⟩

@[simp] theorem length_bits (h : Hash) : h.bits.length = size := by simp [bits]

@[simp] theorem length_words (h : Hash) : h.words.length = 4 := by simp [words]

/-! ### Counting and comparing -/

/-- The number of set bits among the lowest `width` ones. -/
def countBits : (width : Nat) → Nat → Nat
  | 0, _ => 0
  | width + 1, n => n % 2 + countBits width (n / 2)

/-- The number of set bits of a 256-bit vector, counted in chunks that fit a machine word. -/
def popCount (v : BitVec 256) : Nat :=
  (List.range 8).foldl (fun n i => n + countBits 32 (v.extractLsb' (32 * i) 32).toNat) 0

def ones (h : Hash) : Nat := popCount h.value

def distance (a b : Hash) : Nat := popCount (a.value ^^^ b.value)

/-- Hashes are ordered as numbers. -/
def compare (a b : Hash) : Ordering := Ord.compare a.value.toNat b.value.toNat

instance : Ord Hash := ⟨compare⟩

def least (a b : Hash) : Hash := if a.value.toNat ≤ b.value.toNat then a else b

def greatest (a b : Hash) : Hash := if a.value.toNat ≤ b.value.toNat then b else a

theorem least_comm (a b : Hash) : least a b = least b a := by
  unfold least
  split <;> split
  · exact congrArg Hash.mk (BitVec.eq_of_toNat_eq (by omega))
  · rfl
  · rfl
  · omega

theorem greatest_comm (a b : Hash) : greatest a b = greatest b a := by
  unfold greatest
  split <;> split
  · exact congrArg Hash.mk (BitVec.eq_of_toNat_eq (by omega))
  · rfl
  · rfl
  · omega

theorem distance_comm (a b : Hash) : distance a b = distance b a := by
  simp [distance, BitVec.xor_comm]

/-! ### Bands -/

/-- The `width` bits from position `start` on, as a number. -/
def band (h : Hash) (start width : Nat) : Nat := (h.value.extractLsb' start width).toNat

end Hash

end VideoFingerprint
