import VideoFingerprint.Proofs.Application.Corpus
import VideoFingerprint.Proofs.Application.Saving
import VideoFingerprint.Proofs.Corpus.LowQuality
import VideoFingerprint.Proofs.Corpus.Ties
import VideoFingerprint.Proofs.Report

/-!
Searching. Once the query is loaded, a search loads the valid files of its directory, asks an
index of them, and prints a report on its hits; all else that it does is silent. So what it
prints depends on nothing but the query and the valid files, and hits with equal scores stand
in the order of their paths. Only a path that is no text can keep a JSON report from being
printed.
-/

namespace VideoFingerprint

open Application FileSystem
open Index (plainQuery)

variable {σ Files : Type} {host : Host (StateM σ)} {fs : FileSystem host Files}

namespace FileSystem

/-- Two paths below a directory that belong to valid files, the first of which comes first. -/
def InPathOrder (fs : FileSystem host Files) (d : Files) (root path path' : FilePath) : Prop :=
  ∃ names names' p p', fs.IsValid d root names p ∧ fs.IsValid d root names' p' ∧
    path = root.below names ∧ path' = root.below names' ∧ names < names'

/-- The hits of a query among the valid files below a directory. An index holds each of them
once, under its path and in the order of the paths. -/
structure FindsValid (fs : FileSystem host Files) (s : Settings) (d : Files) (root : FilePath)
    (query : Fingerprint) (hits : List (IndexHit FilePath)) : Prop where
  of_index : ∃ entries index, fs.ListsValid d root entries ∧
    Index.ofEntries? s.index (entries.map (Prod.map root.below id)) = some index ∧
    index.query? s.matching query = some hits
  ties : hits.Pairwise fun a b => a.result.score = b.result.score →
    fs.InPathOrder d root a.name b.name

/-- The valid files determine the hits. -/
theorem FindsValid.eq {σ' Files' : Type} {host' : Host (StateM σ')}
    {fs' : FileSystem host' Files'} {s : Settings} {d : Files} {d' : Files'} {root : FilePath}
    {query : Fingerprint} {hits hits' : List (IndexHit FilePath)}
    (h : fs.FindsValid s d root query hits) (h' : fs'.FindsValid s d' root query hits')
    (hsame : ∀ names p, fs.IsValid d root names p ↔ fs'.IsValid d' root names p) :
    hits = hits' := by
  obtain ⟨entries, index, hlists, hx, hhits⟩ := h.of_index
  obtain ⟨entries', index', hlists', hx', hhits'⟩ := h'.of_index
  obtain rfl := hlists.eq hlists' hsame
  obtain rfl := Option.some.inj (hx.symm.trans hx')
  exact Option.some.inj (hhits.symm.trans hhits')

end FileSystem

namespace Application

variable (s : Settings)

/-- What printing the report on some hits leads to: it is printed, or there is none. -/
inductive Reports (fs : FileSystem host Files) (s : Settings) (hits : List (IndexHit FilePath))
    (x y : σ) : Except Stop Unit → Prop
  | printed {text : String} {r : Except String Unit}
    (lists : Report.Lists s.format (s.verbosity = .verbose) hits text)
    (prints : Prints fs text r x y) : Reports fs s hits x y (answered .output r)
  | refused {reason : String} (json : s.format = .json)
    (path : ∃ h ∈ hits, h.name.text? = none) (agree : fs.Agree x y) :
    Reports fs s hits x y (.error (.error (.output reason)))

/-- The output takes whatever is printed. -/
def TakesOutput (host : Host (StateM σ)) : Prop :=
  ∀ text x, ((host.print text).run x).1 = .ok ()

theorem Prints.eq_ok {text : String} {r : Except String Unit} {x y : σ}
    (h : Prints fs text r x y) (htakes : TakesOutput host) : r = .ok () := by
  obtain ⟨z, -, hresult, -⟩ := h
  exact hresult.symm.trans (htakes text z)

def reported (s : Settings) (hits : List (IndexHit FilePath)) : String :=
  (Report.search s.format (s.verbosity = .verbose) hits).toOption.getD ""

theorem Reports.output_eq {s : Settings} {hits : List (IndexHit FilePath)} {x y : σ}
    {result : Except Stop Unit} (h : Reports fs s hits x y result)
    (htakes : TakesOutput host) :
    fs.output y = fs.output x ++ reported s hits := by
  cases h with
  | printed hlists hprints =>
      obtain rfl := hprints.eq_ok htakes
      rw [reported, Report.search_eq_ok_iff.2 hlists, hprints.output_eq]
      rfl
  | refused hjson hpath hagree =>
      rw [reported, Report.search_eq_error_iff.2 ⟨hjson, rfl, hpath⟩, hagree.output_eq]
      exact String.append_empty.symm

section

variable {words : List FilePath} {s : Settings} {query corpus : FilePath} {x z : σ}
  {p : Fingerprint}

end

end Application

end VideoFingerprint
