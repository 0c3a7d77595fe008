import LibVsf.Lib.Maps
import LibVsf.Lib.Runs
import LibVsf.Lib.ToleranceOrder
import LibVsf.Lib.Interleaving
import LibVsf.VmId
import LibVsf.NodeTestDist
import LibVsf.NodeTestDistProof
import LibVsf.FuncOption
import LibVsf.VmSet
import LibVsf.VmSetProof
import LibVsf.Vsf
import LibVsf.VsfProof
import LibVsf.CpuUsage
import LibVsf.CpuUsageProof
import LibVsf.CacheMiss
import LibVsf.CacheMissProof
import LibVsf.VmCacheMiss
import LibVsf.VmCacheMissProof
import LibVsf.VmCacheMissIds
import LibVsf.VmCacheMissConcurrent
import LibVsf.Lib.Handles
import LibVsf.CacheMissFd
import LibVsf.Lib.Watching
import LibVsf.SamplerWatching
import LibVsf.VmCpuUsage
import LibVsf.VmCpuUsageProof
import LibVsf.Lib.Locking
import LibVsf.SamplerLocking
import LibVsf.Lib.MapOfSets
import LibVsf.Lib.Text
import LibVsf.NodeCpu
import LibVsf.NodeCpuProof
import LibVsf.Lib.Writing
import LibVsf.NodeCpuRefresh
import LibVsf.Lib.EqvMap
import LibVsf.VmBase
import LibVsf.VmBaseProof
import LibVsf.VmBaseMaps
import LibVsf.VmBaseRuns
import LibVsf.VmBaseCmd
import LibVsf.VmBaseCallback
import LibVsf.Lib.Since
import LibVsf.VmBaseConcurrent
import LibVsf.CpuMig
import LibVsf.CpuMigProof
import LibVsf.NodeTestDistConcurrent
import LibVsf.NodeSysDist
import LibVsf.NodeSysDistProof
import LibVsf.NodeDistComplete
import LibVsf.NodeTestDistNodes
import LibVsf.VmNodeInfo
import LibVsf.VmNodeInfoProof
import LibVsf.VmNodeInfoInstance
import LibVsf.VmSetCallbacks
import LibVsf.CpuUsageUnknown
import LibVsf.CpuUsageWindows
import LibVsf.CpuUsageShares
import LibVsf.CpuUsageSystem
import LibVsf.NodeSysDistParse
import LibVsf.NodeTestDistFigures
import LibVsf.NodeCpuList
import LibVsf.VmBaseEtime
import LibVsf.VmBaseListing
import LibVsf.VmBaseNames
import LibVsf.VmBaseNumbers
import LibVsf.VmNodeAttrs
import LibVsf.VmNodeCpus
import LibVsf.VmNumaInfo
import LibVsf.VmNumaInfoCounts
import LibVsf.VmNumaInfoMaps
import LibVsf.NodeCpuStanzas
import LibVsf.OptionParamVal
import LibVsf.OptionParamValProof
import LibVsf.Lib.RingBuffer
import LibVsf.PerfEvent
import LibVsf.PerfEventProof
import LibVsf.Microbench
import LibVsf.NodeTestDistCommand
import LibVsf.HsCpuUsage
import LibVsf.HsCpuUsageProof
import LibVsf.OpenStreams
import LibVsf.Lib.Spans
import LibVsf.StrToolsLoops
import LibVsf.StrToolsProof
import LibVsf.Lib.ShiftRegister
import LibVsf.MicrobenchRandom
import LibVsf.Runnable
import LibVsf.RunnableProof
import LibVsf.RunnableSessions
import LibVsf.SamplerThreads
import LibVsf.Lib.LockOrder
import LibVsf.ModuleLocks
import LibVsf.Lib.RoundRobin
import LibVsf.NaiveScheduler
import LibVsf.Lib.Decimals
import LibVsf.MicrobenchStream
import LibVsf.MicrobenchThreads
import LibVsf.NodeTestDistTime
import LibVsf.HostMemory
import LibVsf.HsCpuUsageGetters
import LibVsf.VmBaseVolatile
import LibVsf.Lib.Settings
import LibVsf.VsfConfigured
import LibVsf.Lib.LazyFill
import LibVsf.NodeCpuQueries
import LibVsf.VmCpuUsageReports
import LibVsf.Lib.SearchTree
import LibVsf.VmBaseOwners
import LibVsf.VmIdMaps
import LibVsf.VmBaseIds
import LibVsf.VmCacheMissReports
import LibVsf.VmBaseReports
import LibVsf.VmCpuUsageConcurrent
import LibVsf.VmNumaInfoNodes
