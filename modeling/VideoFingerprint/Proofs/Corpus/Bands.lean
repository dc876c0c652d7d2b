import Mathlib.Algebra.BigOperators.Fin
import Mathlib.InformationTheory.Hamming
import VideoFingerprint.Proofs.Corpus.Buckets
import VideoFingerprint.Proofs.Hash.Views

/-!
Hashes as points of a space, and the bands that they are filed under. The distance of two
hashes is the Hamming distance of their bits, so it has the laws of a distance. The keys of a
hash are its bits cut into equal pieces: put together again they are the bits, so nothing is
lost and nothing is counted twice, and two hashes differ in at least as many bits as bands.
-/

namespace VideoFingerprint

open Finset

/-- The number of places, among the first `n`, at which two lists differ. -/
def placesApart {α : Type} [DecidableEq α] (n : ℕ) (xs ys : List α) : ℕ :=
  hammingDist (fun i : Fin n => xs[i.val]?) fun i => ys[i.val]?

theorem placesApart_eq_card {α : Type} [DecidableEq α] (n : ℕ) (xs ys : List α) :
    placesApart n xs ys = #{i ∈ range n | xs[i]? ≠ ys[i]?} := by
  rw [placesApart, hammingDist, card_filter, card_filter,
    Fin.sum_univ_eq_sum_range fun i => if xs[i]? ≠ ys[i]? then 1 else 0]

/-- Equal stretches of places, one after the other, are all places. -/
theorem flatMap_range_mul {α : Type} (f : ℕ → α) (count width : ℕ) :
    ((List.range count).flatMap fun i => (List.range width).map fun j => f (i * width + j)) =
      (List.range (count * width)).map f := by
  induction count with
  | zero => simp
  | succ count ih =>
      rw [List.range_succ, List.flatMap_append, ih, List.flatMap_singleton, Nat.succ_mul,
        List.range_add, List.map_append, List.map_map]
      rfl

namespace Hash

/-! ### The distance -/

theorem distance_eq_placesApart (a b : Hash) :
    distance a b = placesApart size a.bits b.bits := by
  rw [distance_eq_card, placesApart_eq_card, differing]
  refine congrArg card (filter_congr fun k hk => ?_)
  rw [getElem?_bits (mem_range.1 hk), getElem?_bits (mem_range.1 hk), ne_eq, ne_eq,
    Option.some.injEq]

theorem distance_le_size (a b : Hash) : distance a b ≤ size := by
  rw [distance_eq_placesApart]
  exact hammingDist_le_card_fintype.trans_eq (Fintype.card_fin size)

theorem distance_triangle (a b c : Hash) : distance a c ≤ distance a b + distance b c := by
  simp only [distance_eq_placesApart]
  exact hammingDist_triangle _ _ _

theorem bits_inj {a b : Hash} : a.bits = b.bits ↔ a = b := by
  refine ⟨fun h => ?_, congrArg bits⟩
  rw [← ofBits_bits a, h, ofBits_bits]

/-! ### Bands -/

theorem band_lt (h : Hash) (start width : ℕ) : h.band start width < 2 ^ width := BitVec.isLt _

theorem testBit_band (h : Hash) {start width j : ℕ} (hj : j < width) :
    (h.band start width).testBit j = h.value.getLsbD (start + j) := by
  rw [band, BitVec.testBit_toNat, BitVec.getLsbD_extractLsb', decide_eq_true hj, Bool.true_and]

end Hash

namespace IndexConfig

open Hash

variable {cfg : IndexConfig} {h : Hash}

/-- The keys are the bits of a hash, cut into bands of `width` bits. There is a key for each
band, in their order; no key has more bits than a band, and put together they are the bits of
the hash, each of which is one bit of one key. -/
structure Partition (bands width : ℕ) (h : Hash) (keys : List BandKey) : Prop where
  inOrder : keys.map BandKey.band = List.range bands
  fits : ∀ key ∈ keys, key.value < 2 ^ width
  joined : keys.flatMap (fun key => (List.range width).map key.value.testBit) = h.bits
  once : ∀ k < size, ∃ key ∈ keys, ∃ j < width, k = key.band * width + j ∧
    h.bit? k = some (key.value.testBit j) ∧
    ∀ key' ∈ keys, ∀ j' < width, k = key'.band * width + j' → key' = key ∧ j' = j

theorem flatMap_keys (hsize : cfg.bands * cfg.bandWidth = size) (h : Hash) :
    (cfg.keys h).flatMap (fun key => (List.range cfg.bandWidth).map key.value.testBit) =
      h.bits := by
  have hband (i : ℕ) :
      (List.range cfg.bandWidth).map (h.band (i * cfg.bandWidth) cfg.bandWidth).testBit =
      (List.range cfg.bandWidth).map fun j => h.value.getLsbD (i * cfg.bandWidth + j) :=
    List.map_congr_left fun j hj => testBit_band h (List.mem_range.1 hj)
  rw [keys, List.flatMap_map]
  simp only [hband]
  rw [flatMap_range_mul, hsize, bits]

theorem bandWidth_pos (hsize : cfg.bands * cfg.bandWidth = size) : 0 < cfg.bandWidth := by
  by_contra hzero
  rw [Nat.eq_zero_of_not_pos hzero] at hsize
  cases hsize

/-- Keys for the same band of a hash are the same. -/
theorem eq_of_band_eq {key key' : BandKey} (hkey : key ∈ cfg.keys h)
    (hkey' : key' ∈ cfg.keys h) (hband : key.band = key'.band) : key = key' := by
  have hvalue := (mem_keys_iff.1 hkey).2
  rw [hband, (mem_keys_iff.1 hkey').2] at hvalue
  cases key
  cases key'
  rw [BandKey.mk.injEq]
  exact ⟨hband, hvalue.symm⟩

theorem partition_keys (hsize : cfg.bands * cfg.bandWidth = size) (h : Hash) :
    Partition cfg.bands cfg.bandWidth h (cfg.keys h) where
  inOrder := by
    rw [keys, List.map_map]
    exact List.map_id _
  fits key hkey := by
    rw [← (mem_keys_iff.1 hkey).2]
    exact band_lt h _ _
  joined := flatMap_keys hsize h
  once k hk := by
    have hwidth := bandWidth_pos hsize
    have hj := Nat.mod_lt k hwidth
    have hi : k / cfg.bandWidth < cfg.bands :=
      Nat.div_lt_of_lt_mul (by rwa [Nat.mul_comm, hsize])
    have hkey : ⟨k / cfg.bandWidth, h.band (k / cfg.bandWidth * cfg.bandWidth) cfg.bandWidth⟩ ∈
        cfg.keys h :=
      mem_keys_iff.2 ⟨hi, rfl⟩
    refine ⟨_, hkey, k % cfg.bandWidth, hj, (Nat.div_add_mod' k _).symm, ?_,
      fun key' hkey' j' hj' hplace => ?_⟩
    · rw [testBit_band h hj, Nat.div_add_mod', bit?, if_pos hk]
    · have hsum : j' + cfg.bandWidth * key'.band = k := by
        rw [hplace, Nat.mul_comm, Nat.add_comm]
      obtain ⟨hquotient, hremainder⟩ := (Nat.div_mod_unique hwidth).2 ⟨hsum, hj'⟩
      exact ⟨eq_of_band_eq hkey' hkey hquotient.symm, hremainder.symm⟩

theorem keys_inj (hsize : cfg.bands * cfg.bandWidth = size) {a b : Hash} :
    cfg.keys a = cfg.keys b ↔ a = b := by
  refine ⟨fun hkeys => ?_, congrArg cfg.keys⟩
  rw [← bits_inj, ← flatMap_keys hsize a, hkeys, flatMap_keys hsize b]

theorem getElem?_keys {i : ℕ} (hi : i < cfg.bands) :
    (cfg.keys h)[i]? = some ⟨i, h.band (i * cfg.bandWidth) cfg.bandWidth⟩ := by
  rw [keys, List.getElem?_map, List.getElem?_range hi, Option.map_some]

theorem placesApart_keys_le_distance (hsize : cfg.bands * cfg.bandWidth = size) (a b : Hash) :
    placesApart cfg.bands (cfg.keys a) (cfg.keys b) ≤ distance a b := by
  refine le_trans (le_of_eq ?_) (card_bands_le_distance hsize a b)
  rw [placesApart_eq_card]
  refine congrArg card (filter_congr fun i hi => ?_)
  rw [getElem?_keys (mem_range.1 hi), getElem?_keys (mem_range.1 hi)]
  simp

/-- The distance of two hashes is the number of places at which their bits differ; it is at
most 256 and has the laws of a distance. With any settings that are accepted a hash has keys,
which are its bits cut into bands; different hashes have different keys, and no more keys
differ than bits. -/
theorem distance_and_bands :
    (∀ a b c : Hash, distance a b = placesApart 256 a.bits b.bits ∧ distance a b ≤ 256 ∧
      distance a b = distance b a ∧ (distance a b = 0 ↔ a = b) ∧
      distance a c ≤ distance a b + distance b c) ∧
    ∀ bands minScore cfg, IndexConfig.build bands minScore = .ok cfg →
      ∀ a, ∃ keys, cfg.keys? a = some keys ∧ Partition bands (256 / bands) a keys ∧
        ∀ b, ∃ keys', cfg.keys? b = some keys' ∧ (keys = keys' ↔ a = b) ∧
          placesApart bands keys keys' ≤ distance a b := by
  refine ⟨fun a b c => ?_, fun bands minScore cfg hconfig a => ?_⟩
  · exact ⟨distance_eq_placesApart a b, distance_le_size a b, distance_comm a b,
      distance_eq_zero_iff a b, distance_triangle a b c⟩
  · obtain ⟨rfl, hfault⟩ := build_eq_ok_iff.1 hconfig
    have hsize := bands_mul_bandWidth hfault
    have hkeys := keys?_eq_some (splits_of_fault?_eq_none hfault)
    exact ⟨_, hkeys a, partition_keys hsize a, fun b =>
      ⟨_, hkeys b, keys_inj hsize, placesApart_keys_le_distance hsize a b⟩⟩

/-- Bits 63 and 64 of a hash are neighbours, but they belong to two of four bands. -/
theorem distance_and_bands_acrossWords :
    IndexConfig.build 4 0 = .ok ⟨4, 0⟩ ∧
    distance (ofWords 0 0 0 5) (ofWords (1 <<< 63) 1 0 5) = 2 ∧
      ∃ keys keys', (⟨4, 0⟩ : IndexConfig).keys? (ofWords 0 0 0 5) = some keys ∧
        (⟨4, 0⟩ : IndexConfig).keys? (ofWords (1 <<< 63) 1 0 5) = some keys' ∧
        keys ≠ keys' ∧ placesApart 4 keys keys' ≤ 2 := by
  obtain ⟨-, hbands⟩ := distance_and_bands
  have hconfig : IndexConfig.build 4 0 = .ok ⟨4, 0⟩ :=
    build_eq_ok_iff.2 ⟨rfl, by decide +kernel⟩
  have hdistance : distance (ofWords 0 0 0 5) (ofWords (1 <<< 63) 1 0 5) = 2 := by
    decide +kernel
  obtain ⟨keys, hkeys, -, hothers⟩ := hbands 4 0 _ hconfig (ofWords 0 0 0 5)
  obtain ⟨keys', hkeys', hsame, hle⟩ := hothers (ofWords (1 <<< 63) 1 0 5)
  refine ⟨hconfig, hdistance, keys, keys', hkeys, hkeys', fun heq => ?_, hdistance ▸ hle⟩
  have hnear := (distance_eq_zero_iff _ _).2 (hsame.1 heq)
  rw [hdistance] at hnear
  cases hnear

end IndexConfig

end VideoFingerprint
