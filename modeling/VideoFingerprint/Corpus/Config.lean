import VideoFingerprint.ConfigFault
import VideoFingerprint.Hash.Basic

/-!
The settings of a corpus search. Every hash is split into bands of equal width, and two frames
are only compared if they agree on a whole band. Settings that were not checked may describe no
such split; then no frame can be filed or looked up.
-/

namespace VideoFingerprint

/-- A hash is split into `bands` bands; matches that score below `minScore`
are not reported. -/
structure IndexConfig where
  bands : Nat
  minScore : Float

/-- A band of a hash: its number and the bits in it. -/
structure BandKey where
  band : Nat
  value : Nat
deriving DecidableEq, Hashable

namespace IndexConfig

def maxBandWidth : Nat := 64

/-- The width of a band; with zero bands there is none. -/
def bandWidth (cfg : IndexConfig) : Nat := Hash.size / cfg.bands

def fault? (cfg : IndexConfig) : Option ConfigFault :=
  if cfg.bands = 0 ∨ Hash.size % cfg.bands ≠ 0 ∨ maxBandWidth < cfg.bandWidth then
    some (.bands cfg.bands)
  else if ¬ (0 ≤ cfg.minScore ∧ cfg.minScore ≤ 1) then some (.minScore cfg.minScore)
  else none

def build (bands : Nat) (minScore : Float) : Except ConfigFault IndexConfig :=
  match fault? ⟨bands, minScore⟩ with
  | some fault => .error fault
  | none => .ok ⟨bands, minScore⟩

/-- The default settings: sixteen bands, and no least score. -/
def default : IndexConfig := ⟨16, 0⟩

/-- Hashes can be split: the bands have between one and 64 bits. -/
def splits (cfg : IndexConfig) : Bool := 1 ≤ cfg.bandWidth ∧ cfg.bandWidth ≤ maxBandWidth

def keys? (cfg : IndexConfig) (h : Hash) : Option (List BandKey) :=
  if cfg.splits then
    some ((List.range cfg.bands).map fun i => ⟨i, h.band (i * cfg.bandWidth) cfg.bandWidth⟩)
  else none

theorem splits_of_fault?_eq_none {cfg : IndexConfig} (h : cfg.fault? = none) :
    cfg.splits = true := by
  unfold fault? at h
  split at h
  · cases h
  · rename_i hb
    simp only [not_or, Decidable.not_not, Nat.not_lt] at hb
    obtain ⟨hpos, hdvd, hwide⟩ := hb
    have hle : cfg.bands ≤ Hash.size := Nat.le_of_dvd (by decide) (Nat.dvd_of_mod_eq_zero hdvd)
    have hone : 1 ≤ cfg.bandWidth := Nat.div_pos hle (Nat.pos_of_ne_zero hpos)
    simp [splits, hone, hwide]

end IndexConfig

end VideoFingerprint
