import RecompStudio.Dispatch.GameHash
import RecompStudio.Dispatch.BiosTable
import RecompStudio.Backends.Agreement
import RecompStudio.Backends.GteSequence
import RecompStudio.Backends.Unaligned
import RecompStudio.CodeGen.BlockAgreement
import RecompStudio.CodeGen.ZeroRegister
import RecompStudio.CodeGen.Paths
import RecompStudio.CodeGen.Returns
import RecompStudio.CodeGen.SplitClosure
import RecompStudio.CodeGen.Analysis
import RecompStudio.CodeGen.AliasCalls
import RecompStudio.CodeGen.CycleDrift
import RecompStudio.Bios.Closure
import RecompStudio.Bios.Relocation
import RecompStudio.Bios.Decoders
import RecompStudio.CodeGen.RangesManifest
import RecompStudio.Runtime.KernelBless
import RecompStudio.Runtime.TextGuard
import RecompStudio.Runtime.OverlaySafety
import RecompStudio.Runtime.ActiveStack
import RecompStudio.Runtime.RangeLookup
import RecompStudio.Runtime.LazyLoad
import RecompStudio.Runtime.RestoreCaches
import RecompStudio.Runtime.Cycles
import RecompStudio.Runtime.VblankPacing
import RecompStudio.Runtime.PacedClock
import RecompStudio.Runtime.CardRoundTrip
import RecompStudio.Runtime.SioReady
import RecompStudio.Runtime.SioDeadline
import RecompStudio.Runtime.XaResample
import RecompStudio.Runtime.Pads
import RecompStudio.Runtime.PadTransactions
import RecompStudio.Runtime.CdDistance
import RecompStudio.Runtime.CdStream
import RecompStudio.Runtime.CardFlag
import RecompStudio.Runtime.CdInterrupts
import RecompStudio.Threads.Switch
import RecompStudio.Threads.DeferredSwitch
import RecompStudio.Threads.QuickExits
import RecompStudio.Gpu.Framing
import RecompStudio.Runtime.SaveRoundTrip
import RecompStudio.Runtime.LoadFailure
import RecompStudio.Sljit.ShardAgreement
import RecompStudio.Runtime.TimerDeadline
import RecompStudio.Runtime.SioTime
import RecompStudio.Runtime.DmaLanes
import RecompStudio.Runtime.DmaInFlight
import RecompStudio.Runtime.OrderingTable
import RecompStudio.Runtime.MmioLanes
import RecompStudio.Runtime.ShadowFrame
import RecompStudio.Runtime.BadEntry
import RecompStudio.Interp.PreciseSlice
import RecompStudio.Interp.DirtyDispatch
import RecompStudio.Gte.FlagRegister
import RecompStudio.Gte.InstructionBits
import RecompStudio.Mdec.Stream
import RecompStudio.Disc.DirectoryRecords
import RecompStudio.Disc.Cue
import RecompStudio.Studio.Aes
import RecompStudio.Studio.AesInverse
import RecompStudio.Studio.Cbc
import RecompStudio.Studio.CtrStream
import RecompStudio.Studio.VitaPkg
import RecompStudio.Studio.VitaPfs
import RecompStudio.Spu.Envelope
import RecompStudio.Spu.Runs
import RecompStudio.Spu.Position
import RecompStudio.Spu.CdRing
import RecompStudio.Spu.Transfer
import RecompStudio.Spu.Mix
import RecompStudio.Interp.Trampolines
import RecompStudio.CodeGen.FetchPlaces
import RecompStudio.Studio.RomFs
import RecompStudio.Studio.VitaPaths
import RecompStudio.Library.PatchLog
import RecompStudio.Studio.BrandingTim
import RecompStudio.Studio.BrandingManifest
import RecompStudio.Studio.BrandingLog
import RecompStudio.Studio.BrandingStock
import RecompStudio.Studio.MedianCut
import RecompStudio.Studio.BrandingPixels
import RecompStudio.Disc.Image
import RecompStudio.Disc.Delivery
import RecompStudio.Library.Crc
import RecompStudio.Runtime.CodeCheck
import RecompStudio.Library.Painting
import RecompStudio.Gpu.SwRenderer
import RecompStudio.Gpu.Mirror
import RecompStudio.Gpu.Line
import RecompStudio.Gpu.DrawRuns
import RecompStudio.Disc.Files
import RecompStudio.Interp.Oracle
