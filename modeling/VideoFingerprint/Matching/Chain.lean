import VideoFingerprint.Matching.Candidate

/-!
Chains of accepted pairs. The places of the pairs rise on both sides, so no frame is used twice
and no two pairs cross. Whether a pair fits is decided by its two neighbours in the chain
alone.
-/

namespace VideoFingerprint

/-- Accepted pairs of places in the order of the query, and for each place of the reference
whether a pair uses it. -/
structure Chain where
  links : List (Nat × Nat)
  used : Array Bool

namespace Chain

/-- The chain without pairs, for a reference of the given number of eligible frames. -/
def empty (referenceCount : Nat) : Chain := ⟨[], Array.replicate referenceCount false⟩

def before (c : Chain) (p : Nat) : List (Nat × Nat) := c.links.takeWhile fun link => link.1 < p

def onward (c : Chain) (p : Nat) : List (Nat × Nat) := c.links.dropWhile fun link => link.1 < p

/-- A pair fits when neither frame is taken and the nearest pair on each side
does not cross it. -/
def viable (c : Chain) (p q : Nat) : Bool :=
  !(c.onward p).head?.any (fun link => link.1 == p)
    && !c.used.getD q false
    && (c.before p).getLast?.all (fun link => link.2 < q)
    && (c.onward p).head?.all (fun link => q < link.2)

def insert (c : Chain) (p q : Nat) : Chain :=
  ⟨c.before p ++ (p, q) :: c.onward p, c.used.setIfInBounds q true⟩

def contains (c : Chain) (p q : Nat) : Bool := c.links.contains (p, q)

/-- Tries the candidates of one rank. When two of them fit, their places are exchanged, so they
cross; neither is taken, because the choice would depend on which side is the query. -/
def extend (c : Chain) (rank : List Candidate) : Chain :=
  match rank.filter fun x => c.viable x.p x.q with
  | [only] => c.insert only.p only.q
  | _ => c

/-- The chain that sorted candidates build up, rank by rank. -/
def ofSorted (referenceCount : Nat) (sorted : List Candidate) : Chain :=
  (sorted.splitBy Candidate.sameRank).foldl extend (empty referenceCount)

end Chain

end VideoFingerprint
