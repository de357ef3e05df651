import LinuxSampler.VmSync
import LinuxSampler.NkspFork
import LinuxSampler.NkspPoly
import LinuxSampler.NkspFactor
import LinuxSampler.RtAvlOrder
import LinuxSampler.ImportQueue
import LinuxSampler.SyncSafety
import LinuxSampler.DiskStreamMirror
import LinuxSampler.NkspFrame
import LinuxSampler.NkspText
import LinuxSampler.NkspOrder
import LinuxSampler.SysexFraming
import LinuxSampler.InstrumentMapStore
import LinuxSampler.RunningStatusPackets
import LinuxSampler.KeyboardCleanup
import LinuxSampler.KeyboardHanging
import LinuxSampler.NoteFresh
import LinuxSampler.PoolHarmless
import LinuxSampler.SamplerChannelRun
import LinuxSampler.LscpRoundTrip
import LinuxSampler.LscpFraming
import LinuxSampler.LscpPushParse
import LinuxSampler.InstrumentsDbRun
import LinuxSampler.SfzBounds
import LinuxSampler.DelayedVoice
import LinuxSampler.ScriptForkRun
import LinuxSampler.InstrumentsFinderReads
import LinuxSampler.InstrumentsDbLock
import LinuxSampler.InstrumentsDbScan
import LinuxSampler.InstrumentsDbFault
import LinuxSampler.InstrumentsDbCopyRun
import LinuxSampler.SfzEnvelope
import LinuxSampler.SfzRoundRobin
import LinuxSampler.SfzVelocityCurve
import LinuxSampler.SfzFile
import LinuxSampler.SfzArray
import LinuxSampler.DelayedMerge
import LinuxSampler.VoiceStealingReturns
import LinuxSampler.NoteSchedulingAtomic
import LinuxSampler.ActiveKeysRelease
import LinuxSampler.SoloModeRun
import LinuxSampler.SysexScaleTuning
import LinuxSampler.DataEntry
import LinuxSampler.InstrumentMapAtomic
import LinuxSampler.NkspDivision
import LinuxSampler.NkspEqual
import LinuxSampler.EventGroup
import LinuxSampler.ArrayListRun
import LinuxSampler.RingBufferResize
import LinuxSampler.ResourceUpdate
import LinuxSampler.WorkerThread
import LinuxSampler.RegionSuspension
import LinuxSampler.NkspArith
