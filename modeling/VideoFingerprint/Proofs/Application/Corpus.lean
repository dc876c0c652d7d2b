import Mathlib.Data.List.Lex
import Mathlib.Data.List.Sort
import Mathlib.Data.String.Basic
import VideoFingerprint.Proofs.Application.FileSystem
import VideoFingerprint.Proofs.Corpus.Reloading
import VideoFingerprint.Proofs.Outcome
import VideoFingerprint.Proofs.Sorting

/-!
The corpus of a search. What is loaded from a directory are its valid files, each once and in
the order of the paths: in which order the directory is listed, and what else it holds, makes
no difference. Nor does the order in which the files are loaded, since each result is put in
the place of its path.
-/

namespace VideoFingerprint

open Application FileSystem Outcome

variable {σ Files : Type} {host : Host (StateM σ)} {fs : FileSystem host Files}

/-! ### The order of paths -/

theorem FilePath.key_injective : Function.Injective FilePath.key := fun _ _ h =>
  congrArg FilePath.mk (List.map_injective_iff.2 (fun _ _ => UInt8.toNat_inj.1) h)

/-- Paths and names are ordered by their bytes. -/
instance : LinearOrder FilePath := LinearOrder.lift' FilePath.key FilePath.key_injective

theorem FilePath.lt_iff {a b : FilePath} : a < b ↔ a.key < b.key := Iff.rfl

namespace FileSystem

def storedAt (fs : FileSystem host Files) (d : Files) (path : FilePath) :
    Except Fingerprint.FileError Fingerprint :=
  match fs.content d path with
  | .error reason => .error (.io reason)
  | .ok bytes => Fingerprint.decodeBytes bytes

/-- A file below a directory, given by the names on the way to it, that holds a fingerprint. -/
structure IsValid (fs : FileSystem host Files) (d : Files) (root : FilePath)
    (names : List FilePath) (p : Fingerprint) :
    Prop where
  listed : .ok names ∈ fs.below d root
  extension_eq : isStored names = true
  stored_eq : fs.storedAt d (root.below names) = .ok p

/-- The valid files below a directory with their fingerprints, each once and in the
order of the paths. -/
structure ListsValid (fs : FileSystem host Files) (d : Files) (root : FilePath)
    (entries : List (List FilePath × Fingerprint)) : Prop where
  mem_iff : ∀ names p, (names, p) ∈ entries ↔ fs.IsValid d root names p
  rising : entries.Pairwise fun a b => a.1 < b.1

/-- The valid files determine their list. -/
theorem ListsValid.eq {σ' Files' : Type} {host' : Host (StateM σ')}
    {fs' : FileSystem host' Files'} {d : Files} {d' : Files'} {root : FilePath}
    {entries entries' : List (List FilePath × Fingerprint)} (h : fs.ListsValid d root entries)
    (h' : fs'.ListsValid d' root entries')
    (hsame : ∀ names p, fs.IsValid d root names p ↔ fs'.IsValid d' root names p) :
    entries = entries' := by
  have : Std.Irrefl fun a b : List FilePath × Fingerprint => a.1 < b.1 :=
    ⟨fun a => lt_irrefl a.1⟩
  have : Std.Antisymm fun a b : List FilePath × Fingerprint => a.1 < b.1 :=
    ⟨fun a b hab hba => absurd hab hba.asymm⟩
  refine h.rising.eq_of_mem_iff h'.rising fun {e} => ?_
  rw [h.mem_iff e.1 e.2, h'.mem_iff e.1 e.2]
  exact hsame e.1 e.2

end FileSystem

end VideoFingerprint
