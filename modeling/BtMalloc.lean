import BtMalloc.Lib.LinkedList
import BtMalloc.Lib.Listing
import BtMalloc.Lib.Transition
import BtMalloc.Lib.LockProgram
import BtMalloc.Lib.PagedMemory
import BtMalloc.Lib.Probing
import BtMalloc.Lib.Units
import BtMalloc.Lib.Word
import BtMalloc.SizeClass
import BtMalloc.State
import BtMalloc.Registry
import BtMalloc.Large
import BtMalloc.Background
import BtMalloc.Partition
import BtMalloc.Api
import BtMalloc.Backing
import BtMalloc.Machine
import BtMalloc.Conditions
import BtMalloc.ChunkFlow
import BtMalloc.Proofs.SizeClassProofs
import BtMalloc.Ledger
import BtMalloc.Log
import BtMalloc.Rep
import BtMalloc.Effect
import BtMalloc.ForkLocks
import BtMalloc.Interning
import BtMalloc.Meshing
import BtMalloc.OwnerEngines
import BtMalloc.Tiering
import BtMalloc.PoolMachine
import BtMalloc.Profile
import BtMalloc.RegionCache
import BtMalloc.Ring
import BtMalloc.Startup
import BtMalloc.SysRep
import BtMalloc.Proofs.LedgerProofs
import BtMalloc.Proofs.ApartProofs
import BtMalloc.Proofs.StageProofs
import BtMalloc.Proofs.SlotProofs
import BtMalloc.Proofs.ChunkLedgerProofs
import BtMalloc.Proofs.LinkProofs
import BtMalloc.Proofs.RepProofs
import BtMalloc.Proofs.PartialListProofs
import BtMalloc.Proofs.PutProofs
import BtMalloc.Proofs.ReleaseProofs
import BtMalloc.Proofs.EmptySlabProofs
import BtMalloc.Proofs.EffectProofs
import BtMalloc.Proofs.GiveUpProofs
import BtMalloc.Proofs.RegistryProofs
import BtMalloc.Proofs.DepotProofs
import BtMalloc.Proofs.TouchProofs
import BtMalloc.Proofs.MapProofs
import BtMalloc.Proofs.BackgroundProofs
import BtMalloc.Proofs.BackingProofs
import BtMalloc.Proofs.ReclaimProofs
import BtMalloc.Proofs.FlushProofs
import BtMalloc.Proofs.FormatProofs
import BtMalloc.Proofs.CarveProofs
import BtMalloc.Proofs.ObtainProofs
import BtMalloc.Proofs.RefillProofs
import BtMalloc.Proofs.CacheProofs
import BtMalloc.Proofs.ChunkFlowProofs
import BtMalloc.Proofs.MeshLoopProofs
import BtMalloc.Proofs.MeshProofs
import BtMalloc.Proofs.LargeProofs
import BtMalloc.Proofs.AllocProofs
import BtMalloc.Proofs.LargeReallocProofs
import BtMalloc.Proofs.SysProofs
import BtMalloc.Proofs.ReallocProofs
import BtMalloc.Proofs.WorldProofs
import BtMalloc.Proofs.CompactProofs
import BtMalloc.Proofs.ForkLockProofs
import BtMalloc.Proofs.InterningProofs
import BtMalloc.Proofs.OwnerEngineProofs
import BtMalloc.Proofs.ProfileProofs
import BtMalloc.Proofs.RegionCacheProofs
import BtMalloc.Proofs.RingProofs
import BtMalloc.Proofs.StartupProofs
import BtMalloc.Compaction
import BtMalloc.Proofs.ColdProofs
import BtMalloc.Proofs.CompactRunProofs
import BtMalloc.Proofs.DataRunProofs
import BtMalloc.Proofs.MeshWorldProofs
import BtMalloc.Proofs.ResolveProofs
import BtMalloc.Proofs.TableProofs
import BtMalloc.Proofs.ForeignProofs
import BtMalloc.Proofs.RequestProofs
import BtMalloc.Proofs.ResizeProofs
