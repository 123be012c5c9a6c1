import BtMalloc.Registry

/-!
# Large objects (`large.c`)

Every object above `BTM_SMALL_MAX_SIZE` is a mapping of its own with a header at its base. All sums
and round-ups are 64-bit machine arithmetic.
-/

namespace BtMalloc

open Word

/-- How a call into the allocator ends other than by returning. -/
inductive Trap where
  /-- An access to an unmapped page. -/
  | segv
  /-- `btm_double_free` reported a double free and aborted. -/
  | doubleFree
  deriving DecidableEq, Repr

/-- `BTM_ALIGNMENT`. -/
def btmAlignment : ℕ := 16

/-- `sizeof(btm_large_hdr_t)`. -/
def largeHdrSize : ℕ := 32

/-- The header size and the sizes `btm_large_alloc` computes from its arguments: `hdr`, `total`,
    `balign` and `want`. -/
def largeHdr (alignment : ℕ) : ℕ := roundUp largeHdrSize (max alignment btmAlignment)

@[inherit_doc largeHdr]
def largeTotal (size alignment : ℕ) : ℕ :=
  roundUp ((largeHdr alignment + size) % 2 ^ 64) pageSize

@[inherit_doc largeHdr]
def largeBalign (alignment : ℕ) : ℕ := max (max alignment btmAlignment) chunkSize

@[inherit_doc largeHdr]
def largeWant (size alignment : ℕ) : ℕ :=
  (largeTotal size alignment + largeBalign alignment) % 2 ^ 64

/-- `btm_large_alloc`: the user pointer, 0 for `NULL`. Writing the header faults when the page at
    `base` is not mapped. -/
def btmLargeAlloc (k : Kernel) (h : Heap) (size alignment : ℕ) : Except Trap (ℕ × Heap) :=
  let hdr := largeHdr alignment
  let total := largeTotal size alignment
  let balign := largeBalign alignment
  let want := largeWant size alignment
  match mmapResult h k.large want with
  | none => .ok (0, h)
  | some raw =>
    let h := h.mmapAnon raw want
    let base := roundUp raw balign
    let front := (base + 2 ^ 64 - raw) % 2 ^ 64
    let h := if front = 0 then h else h.munmap raw front
    let back := (want + 2 * 2 ^ 64 - front - total) % 2 ^ 64
    let h := if back = 0 then h else h.munmap ((base + total) % 2 ^ 64) back
    if h.mapped (base / pageSize) then
      let h := { h with larges := Function.update h.larges base ⟨total, hdr, size⟩ }
      let h := btmRegistryInsert k h base total (base ||| 1)
      .ok ((base + hdr) % 2 ^ 64, h)
    else .error .segv

/-- The header at `base`; reading it faults when its page is not mapped. -/
def largeHeader (h : Heap) (base : ℕ) : Except Trap LargeHdr :=
  if h.mapped (base / pageSize) then .ok (h.larges base) else .error .segv

/-- `btm_large_free`. -/
def btmLargeFree (k : Kernel) (h : Heap) (base : ℕ) : Except Trap Heap :=
  match largeHeader h base with
  | .error e => .error e
  | .ok hd => .ok ((btmRegistryRemove k h base hd.mapLen).munmap base hd.mapLen)

/-- `btm_large_usable_size`. -/
def btmLargeUsableSize (h : Heap) (base p : ℕ) : Except Trap ℕ :=
  match largeHeader h base with
  | .error e => .error e
  | .ok hd => .ok ((hd.mapLen + 2 ^ 64 - (p + 2 ^ 64 - base) % 2 ^ 64) % 2 ^ 64)

/-- `mremap(MREMAP_MAYMOVE)` of the mapping at `base`: in place when the kernel answers `base` itself
    and the grown part is free, or to a fresh range. A length of 0 and an old range that leaves the user
    address space are refused. -/
def mremapResult (k : Kernel) (h : Heap) (base oldLen newLen : ℕ) : Option ℕ :=
  k.mremap.filter fun nb =>
    (base + oldLen).ble (2 ^ 47) &&
      if nb = base then
        (0).blt newLen && (base + newLen).ble (2 ^ 47) &&
          (List.range' ((base + oldLen) / pageSize) (newLen / pageSize - oldLen / pageSize)).all
            fun p => !h.mapped p
      else freshRange h nb newLen

/-- The effect of a successful `mremap`: the common prefix keeps its bytes, new pages read as zero, and
    what is left of the old range is unmapped. -/
def Heap.mremap (h : Heap) (base oldLen nb newLen : ℕ) : Heap :=
  let keep := min oldLen newLen
  let m : Mem := (h.mem.remap (nb / pageSize) (newLen / pageSize) fun i =>
    .anon (nb / pageSize + i)).zero (anonIn (nb + keep) (newLen - keep))
  let m := if nb = base then m else m.write nb keep fun i => h.mem.read (base + i)
  let h := { h with
    mapped := fun p => inPages nb newLen p || h.mapped p
    mem := m
    larges := Function.update h.larges nb (h.larges base) }
  if nb ≠ base then h.munmap base oldLen
  else if newLen < oldLen then h.munmap (base + newLen) (oldLen - newLen)
  else h

/-- `new_total` of `btm_large_realloc`. -/
def newTotal (hd : LargeHdr) (newsz : ℕ) : ℕ := roundUp ((hd.userOff + newsz) % 2 ^ 64) pageSize

/-- `btm_large_realloc`: the user pointer, 0 for `NULL`. The registry entries are dropped, the
    mapping is moved or resized, and the entries are set again at the base it ended up at. -/
def btmLargeRealloc (k : Kernel) (h : Heap) (base p newsz : ℕ) : Except Trap (ℕ × Heap) :=
  match largeHeader h base with
  | .error e => .error e
  | .ok hd =>
    let total := newTotal hd newsz
    if total = hd.mapLen then
      .ok (p, { h with larges := Function.update h.larges base { hd with reqSize := newsz } })
    else
      let h1 := btmRegistryRemove k h base hd.mapLen
      match mremapResult k h1 base hd.mapLen total with
      | none => .ok (0, btmRegistryInsert k h1 base hd.mapLen (base ||| 1))
      | some nb =>
        let h2 := h1.mremap base hd.mapLen nb total
        let h3 := { h2 with larges := Function.update h2.larges nb ⟨total, hd.userOff, newsz⟩ }
        .ok ((nb + hd.userOff) % 2 ^ 64, btmRegistryInsert k h3 nb total (nb ||| 1))

end BtMalloc
