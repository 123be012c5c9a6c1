import Mathlib.Data.Nat.Basic
import Mathlib.Tactic.Ring

/-!
# Size classes (`size_class.c`)

The 36 size classes, the pages a slab of each class spans, the size-to-class lookup table and the
per-class cap of a thread cache bin.
-/

namespace BtMalloc

/-- `BTM_PAGE_SIZE`. -/
def pageSize : ℕ := 4096

/-- `BTM_CHUNK_SIZE`. -/
def chunkSize : ℕ := 2097152

/-- `BTM_PAGES_PER_CHUNK`. -/
def pagesPerChunk : ℕ := 512

/-- `BTM_SMALL_MAX_SIZE`. -/
def smallMaxSize : ℕ := 16384

/-- `BTM_NUM_SIZE_CLASSES`. -/
def numSizeClasses : ℕ := 36

/-- `sizeof(btm_slab_t)`: three pointers, two 32-bit counts, four 16-bit fields, four bytes and the
    32-bit epoch. -/
def slabDescSize : ℕ := 48

/-- `BTM_DESC_PAGES`. -/
def descPages : ℕ := (pagesPerChunk * slabDescSize + pageSize - 1) / pageSize

/-- `BTM_DATA_START_PAGE`. -/
def dataStartPage : ℕ := 1 + descPages

/-- `btm_sc_to_size`. -/
def btmScToSize (sc : ℕ) : ℕ :=
  [16, 32, 48, 64, 80, 96, 112, 128,
   160, 192, 224, 256,
   320, 384, 448, 512,
   640, 768, 896, 1024,
   1280, 1536, 1792, 2048,
   2560, 3072, 3584, 4096,
   5120, 6144, 7168, 8192,
   10240, 12288, 14336, 16384].getD sc 0

/-- `btm_sc_run_pages`. -/
def btmScRunPages (sc : ℕ) : ℕ :=
  [1, 1, 1, 1, 1, 1, 1, 1,
   1, 1, 1, 1,
   2, 2, 2, 2,
   4, 4, 4, 4,
   8, 8, 8, 8,
   16, 16, 16, 16,
   24, 24, 24, 24,
   32, 32, 32, 32].getD sc 0

/-- `btm_cache_max_tbl`, read by `btm_cache_max`. -/
def btmCacheMax (sc : ℕ) : ℕ :=
  [256, 256, 256, 256, 204, 170, 146, 128, 102, 85, 73, 64, 51, 42, 36, 32,
   25, 21, 18, 16, 12, 10, 9, 8, 8, 8, 8, 8, 8, 8, 8, 8, 8, 8, 8, 8].getD sc 0

/-- `btm_sc_lut`, 1024 entries, written as the runs of equal entries in the table: eight runs of one,
    then four runs each of 2, 4, 8, ..., 128. -/
def btmScLut : List ℕ :=
  [0, 1, 2, 3, 4, 5, 6, 7] ++
  (List.range 28).flatMap fun i => List.replicate (2 ^ (i / 4 + 1)) (i + 8)

/-- `btm_size_to_sc`: the smallest class that fits, `none` for the `-1` of size 0 and of sizes above
    `BTM_SMALL_MAX_SIZE`. The one unsigned compare catches both, as `0 - 1` wraps. -/
@[irreducible]
def btmSizeToSc (size : ℕ) : Option ℕ :=
  if (size + 2 ^ 64 - 1) % 2 ^ 64 ≥ smallMaxSize then none
  else some (btmScLut.getD ((size - 1) >>> 4) 0)

/-- The number of slots `slab_format` lays out in a slab of class `sc`. -/
def slabSlots (sc : ℕ) : ℕ := btmScRunPages sc * pageSize / btmScToSize sc

end BtMalloc
