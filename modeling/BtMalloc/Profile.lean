import BtMalloc.State

/-!
# The heap profile (`btmalloc.c`)

`btm_heap_profile`: the lines it formats into its buffer and the `write` calls it makes. Text is a
list of characters of one byte each. `dladdr` is any function: the symbol and library names are as
long as they are.
-/

namespace BtMalloc.Profile

/-- `%u` and `%llu`. -/
def decimal (n : ℕ) : List Char := Nat.toDigits 10 n

/-- `%p`, as the C library prints it. -/
def pointer (p : ℕ) : List Char :=
  if p = 0 then "(nil)".toList else "0x".toList ++ Nat.toDigits 16 p

/-- `%-w`: blanks on the right. -/
def padRight (w : ℕ) (s : List Char) : List Char := s ++ List.replicate (w - s.length) ' '

/-- `%w`: blanks on the left. -/
def padLeft (w : ℕ) (s : List Char) : List Char := List.replicate (w - s.length) ' ' ++ s

/-- `sizeof line`. -/
def lineSize : ℕ := 256

/-- `snprintf` into a buffer of `size` bytes: what it leaves there, up to the terminating zero, and
    its result. The result is the length of the whole text, or negative if that is no `int`. -/
def snprintf (size : ℕ) (text : List Char) : List Char × ℤ :=
  (text.take (size - 1) ++ [Char.ofNat 0], if text.length < 2 ^ 31 then text.length else -1)

/-- A call of `write`: what the buffer starts with, and the length given. -/
structure WriteCall where
  buf : List Char
  len : ℕ

/-- What the call writes, if its length is not beyond the buffer. -/
def WriteCall.text (w : WriteCall) : List Char := w.buf.take w.len

/-- Format a line and write as many bytes as `snprintf` returned. -/
def emit (text : List Char) : List WriteCall :=
  let (buf, n) := snprintf lineSize text
  if 0 < n then [⟨buf, n.toNat⟩] else []

/-- The names that `dladdr` finds for a return address: `dli_sname` and `dli_fname`, either of which
    may be `NULL`. -/
abbrev Dladdr := ℕ → Option (Option (List Char) × Option (List Char))

/-- `sym` and `lib`. -/
def siteNames (dladdr : Dladdr) (ra : ℕ) : List Char × List Char :=
  match if ra = 0 then none else dladdr ra with
  | none => ("?".toList, [])
  | some (sname, fname) => (sname.getD "?".toList, fname.getD [])

/-! ## The lines -/

def headerText (nparts : ℕ) : List Char :=
  "btmalloc heap profile (P=".toList ++ decimal nparts ++ " partitions)\n".toList ++
    padRight 6 "part".toList ++ [' '] ++ padLeft 14 "bytes_outstanding".toList ++
    "  call site\n".toList

def partText (dladdr : Dladdr) (ra i bytes : ℕ) : List Char :=
  padRight 6 (decimal i) ++ [' '] ++ padLeft 14 (decimal bytes) ++ "  ~".toList ++
    (siteNames dladdr ra).1 ++ " (".toList ++ pointer ra ++ " in ".toList ++
    (siteNames dladdr ra).2 ++ ")\n".toList

def totalText (total : ℕ) : List Char :=
  "total outstanding (small): ".toList ++ decimal total ++ " bytes\n".toList

/-- The inner loop: the bytes outstanding in partition `i`, as a 64-bit sum. -/
def partBytes (h : Heap) (i : ℕ) : ℕ :=
  (List.range numSizeClasses).foldl
    (fun bytes sc =>
      (bytes + (h.pools ⟨i, sc⟩).outstanding * btmScToSize sc % 2 ^ 64) % 2 ^ 64) 0

/-- One iteration of the loop over the partitions: the calls made and the total so far. -/
def profileStep (dladdr : Dladdr) (h : Heap) (st : List WriteCall × ℕ) (i : ℕ) :
    List WriteCall × ℕ :=
  let bytes := partBytes h i
  if bytes = 0 then st
  else (st.1 ++ emit (partText dladdr (h.sampleRa i) i bytes), (st.2 + bytes) % 2 ^ 64)

/-- `btm_heap_profile`. -/
def btmHeapProfile (cfg : Config) (dladdr : Dladdr) (h : Heap) : List WriteCall :=
  let (ws, total) := (List.range cfg.nparts).foldl (profileStep dladdr h)
    (emit (headerText cfg.nparts), 0)
  ws ++ emit (totalText total)

/-! ## What the profile should be -/

/-- The bytes outstanding in partition `i`. -/
def bytesOutstanding (h : Heap) (i : ℕ) : ℕ :=
  ((List.range numSizeClasses).map fun sc => (h.pools ⟨i, sc⟩).outstanding * btmScToSize sc).sum

/-- The bytes outstanding in all partitions. -/
def totalOutstanding (cfg : Config) (h : Heap) : ℕ :=
  ((List.range cfg.nparts).map (bytesOutstanding h)).sum

/-- The partitions that have a line. -/
def listed (cfg : Config) (h : Heap) : List ℕ :=
  (List.range cfg.nparts).filter fun i => bytesOutstanding h i != 0

/-- The line of partition `i`. -/
def lineOf (dladdr : Dladdr) (h : Heap) (i : ℕ) : List Char :=
  partText dladdr (h.sampleRa i) i (bytesOutstanding h i)

/-- The calls write the header, one line for each partition with bytes outstanding, in order, and the
    total, and none of them reads beyond the buffer. -/
structure Faithful (cfg : Config) (dladdr : Dladdr) (h : Heap) (ws : List WriteCall) : Prop where
  text : ws.map WriteCall.text =
    headerText cfg.nparts :: (listed cfg h).map (lineOf dladdr h) ++
      [totalText (totalOutstanding cfg h)]
  bounded : ∀ w ∈ ws, w.len ≤ lineSize

/-- Every line of a partition fits the buffer with its terminating zero, and the sums fit 64 bits. -/
structure LinesFit (cfg : Config) (dladdr : Dladdr) (h : Heap) : Prop where
  line : ∀ i ∈ listed cfg h, (lineOf dladdr h i).length < lineSize
  total : totalOutstanding cfg h < 2 ^ 64

end BtMalloc.Profile
