import BoltsRebuilt.Ucode.Translate
import BoltsRebuilt.Ucode.ControlFlow
import BoltsRebuilt.Ucode.Interpolators
import BoltsRebuilt.Constants.Runs
import BoltsRebuilt.Constants.Layout
import BoltsRebuilt.Constants.Packet
import BoltsRebuilt.Lib.System
import BoltsRebuilt.Memory.Shadow
import BoltsRebuilt.Memory.UploadRequest
import BoltsRebuilt.Memory.UploadSound
import BoltsRebuilt.Memory.ResidencyMirror
import BoltsRebuilt.Replay.CommandStream
import BoltsRebuilt.Replay.Worker
import BoltsRebuilt.Replay.WorkerContract
import BoltsRebuilt.Replay.Chunking
import BoltsRebuilt.Edram.OwnershipMemo
import BoltsRebuilt.Geometry.ResidencyCache
import BoltsRebuilt.Geometry.PipelineKey
import BoltsRebuilt.D3D12.StaticBindings
import BoltsRebuilt.Lib.History
import BoltsRebuilt.Memory.ShadowHistory
import BoltsRebuilt.Lib.Packing
import BoltsRebuilt.Texture.ResolvedPages
import BoltsRebuilt.Texture.ScaledResolveMemo
import BoltsRebuilt.Texture.ScaledResolveSound
import BoltsRebuilt.D3D12.SamplerHeaps
import BoltsRebuilt.Assets.Pack
import BoltsRebuilt.Assets.Redirect
import BoltsRebuilt.Lib.Program
import BoltsRebuilt.Assets.MappingTable
import BoltsRebuilt.Assets.Cache
import BoltsRebuilt.Assets.CacheSound
import BoltsRebuilt.Assets.CacheRuns
import BoltsRebuilt.Assets.CacheModes
import BoltsRebuilt.Lib.Fallible
import BoltsRebuilt.Sidecar.Slots
import BoltsRebuilt.Sidecar.Format
import BoltsRebuilt.Sidecar.RoundTrip
import BoltsRebuilt.Assets.MappingMap
import BoltsRebuilt.Lib.Intervals
import BoltsRebuilt.Ranges.Batch
import BoltsRebuilt.Ranges.Scan
import BoltsRebuilt.Ranges.Upload
import BoltsRebuilt.Ranges.Watches
import BoltsRebuilt.Ranges.Invalidation
import BoltsRebuilt.Ranges.Callback
import BoltsRebuilt.Lib.Ring
import BoltsRebuilt.Present.Queue
import BoltsRebuilt.Present.Sync
import BoltsRebuilt.Lib.Threads
import BoltsRebuilt.ShaderCache.Container
import BoltsRebuilt.ShaderCache.Codec
import BoltsRebuilt.ShaderCache.Directory
import BoltsRebuilt.ShaderCache.Calls
import BoltsRebuilt.ShaderCache.Guarantee
import BoltsRebuilt.ShaderCache.Specs
import BoltsRebuilt.ShaderCache.Publication
import BoltsRebuilt.ShaderCache.FileCodec
import BoltsRebuilt.Prelude.Cube
import BoltsRebuilt.Prelude.HardwareIndices
import BoltsRebuilt.Prelude.VertexIndex
import BoltsRebuilt.Constants.Metadata
import BoltsRebuilt.Memory.WatchFastpath
import BoltsRebuilt.Shaders.LoadMemo
import BoltsRebuilt.Lib.Grouping
import BoltsRebuilt.Texture.BindingCache
import BoltsRebuilt.Pm4.Packets
import BoltsRebuilt.Pm4.Framing
import BoltsRebuilt.Pm4.BatchRuns
import BoltsRebuilt.Registers.Writes
import BoltsRebuilt.Registers.Batch
import BoltsRebuilt.Shaders.AlphaTest
import BoltsRebuilt.Shaders.Library
import BoltsRebuilt.Shaders.LibraryRight
import BoltsRebuilt.Shaders.LibraryInvariant
import BoltsRebuilt.Shaders.PairMemo
import BoltsRebuilt.Ucode.VertexFetch
import BoltsRebuilt.Ucode.AluPair
import BoltsRebuilt.Ucode.CoissuedReads
import BoltsRebuilt.Constants.Reuse
import BoltsRebuilt.Constants.ReuseRuns
import BoltsRebuilt.Host.CpuAffinity
import BoltsRebuilt.Host.PreciseWait
import BoltsRebuilt.Input.Script
import BoltsRebuilt.Input.ScriptedDriver
import BoltsRebuilt.Perf.Options
import BoltsRebuilt.Prelude.PackedWords
import BoltsRebuilt.Lib.QueryLog
import BoltsRebuilt.Perf.BudgetProbe
import BoltsRebuilt.Perf.BudgetRecording
import BoltsRebuilt.Perf.BudgetCapture
import BoltsRebuilt.Constants.GpuUploadPool
import BoltsRebuilt.Constants.GpuUploadPoolRuns
import BoltsRebuilt.Lib.Checked
import BoltsRebuilt.Texture.OfflinePack
import BoltsRebuilt.Texture.OfflineAccepted
import BoltsRebuilt.Lib.PitchedRows
import BoltsRebuilt.Texture.OfflineUpload
import BoltsRebuilt.Texture.OfflineUploadSound
import BoltsRebuilt.Lib.Partition
import BoltsRebuilt.Lib.Reading
import BoltsRebuilt.Edram.Rectangles
import BoltsRebuilt.Edram.Transfers
import BoltsRebuilt.Edram.World
import BoltsRebuilt.Lib.Ledger
import BoltsRebuilt.D3D12.Submissions
import BoltsRebuilt.D3D12.SubmissionsSound
import BoltsRebuilt.D3D12.Frames
