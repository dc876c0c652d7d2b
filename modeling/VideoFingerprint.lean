import VideoFingerprint.Application.Machine
import VideoFingerprint.Corpus.Json
import VideoFingerprint.Main
import VideoFingerprint.Proofs.Application.Saving
import VideoFingerprint.Proofs.Application.Searching
import VideoFingerprint.Proofs.Corpus.Bands
import VideoFingerprint.Proofs.Corpus.Buckets
import VideoFingerprint.Proofs.Corpus.Calls
import VideoFingerprint.Proofs.Corpus.LowQuality
import VideoFingerprint.Proofs.Corpus.Recall
import VideoFingerprint.Proofs.Corpus.Reloading
import VideoFingerprint.Proofs.Corpus.Shortlist
import VideoFingerprint.Proofs.Decimal.Fixed
import VideoFingerprint.Proofs.Decimal.Grammar
import VideoFingerprint.Proofs.Decimal.Reading
import VideoFingerprint.Proofs.Fingerprint.Grammar
import VideoFingerprint.Proofs.Fingerprint.Layout
import VideoFingerprint.Proofs.Fingerprint.Lines
import VideoFingerprint.Proofs.Fingerprint.Locality
import VideoFingerprint.Proofs.Fingerprint.Order
import VideoFingerprint.Proofs.Fingerprint.RoundTrip
import VideoFingerprint.Proofs.Fingerprint.Validity
import VideoFingerprint.Proofs.Frame.Binarisation
import VideoFingerprint.Proofs.Frame.Brightness
import VideoFingerprint.Proofs.Frame.Strides
import VideoFingerprint.Proofs.Hash.Hex
import VideoFingerprint.Proofs.Hash.Views
import VideoFingerprint.Proofs.Matching.Alignment
import VideoFingerprint.Proofs.Matching.Clip
import VideoFingerprint.Proofs.Matching.Coverage
import VideoFingerprint.Proofs.Matching.Diagonal
import VideoFingerprint.Proofs.Matching.Greedy
import VideoFingerprint.Proofs.Matching.Neighbours
import VideoFingerprint.Proofs.Matching.Rank
import VideoFingerprint.Proofs.Matching.Retiming
import VideoFingerprint.Proofs.Matching.Runs
import VideoFingerprint.Proofs.Matching.Segments
import VideoFingerprint.Proofs.Matching.Swap
import VideoFingerprint.Proofs.Matching.Tolerance
import VideoFingerprint.Proofs.Number.Arithmetic
import VideoFingerprint.Proofs.Number.Bits
import VideoFingerprint.Proofs.Number.Exact
import VideoFingerprint.Proofs.Number.Grid
import VideoFingerprint.Proofs.Number.Rounding
import VideoFingerprint.Proofs.Sampling.Cells
import VideoFingerprint.Proofs.Sampling.Drain
import VideoFingerprint.Proofs.Sampling.Frames
import VideoFingerprint.Proofs.Sampling.Protocol
import VideoFingerprint.Proofs.Sampling.Rounds
import VideoFingerprint.Proofs.Sampling.Selection
import VideoFingerprint.Proofs.Sampling.Stretch
import VideoFingerprint.Proofs.Sampling.Thinning
import VideoFingerprint.Proofs.Sampling.Trace
import VideoFingerprint.Proofs.Text.Splitting
import VideoFingerprint.Proofs.Video.Features
import VideoFingerprint.Proofs.Video.FrameSize
import VideoFingerprint.Proofs.Video.Framing
import VideoFingerprint.Proofs.Video.Limits
import VideoFingerprint.Proofs.Video.Outcomes
import VideoFingerprint.Proofs.Video.Partial
import VideoFingerprint.Proofs.Video.Report
import VideoFingerprint.Proofs.Video.Scaling
import VideoFingerprint.Proofs.Video.Workers
import VideoFingerprint.Video.Json
