import Libuzi.Runs
import Libuzi.Threads
import Libuzi.Counters
import Libuzi.Interlocked
import Libuzi.Chain
import Libuzi.Buffer
import Libuzi.Loop
import Libuzi.Links
import Libuzi.Bytes
import Libuzi.Effects
import Libuzi.Linear
import Libuzi.Monitor
import Libuzi.Numerals
import Libuzi.Words
import Libuzi.Flags
import Libuzi.InterlockedAccess
import Libuzi.CompareExchange64
import Libuzi.BitFields
import Libuzi.Ledger
import Libuzi.Rounding
import Libuzi.ThreeWay
import Libuzi.Positions
import Libuzi.Components
import Libuzi.Directories
import Libuzi.Synch.InitOnce
import Libuzi.Synch.CriticalProtocol
import Libuzi.Synch.CriticalExclusion
import Libuzi.Synch.Barrier
import Libuzi.Synch.BarrierProtocol
import Libuzi.Synch.BarrierPhases
import Libuzi.Synch.BarrierReuse
import Libuzi.Synch.BarrierDelete
import Libuzi.Synch.CriticalIdentity
import Libuzi.Synch.OpaqueSection
import Libuzi.Synch.OpaqueFrame
import Libuzi.Timer.TimerQueue
import Libuzi.Timer.TimerLists
import Libuzi.Timer.TimerRemoval
import Libuzi.Timer.TimerSteps
import Libuzi.Timer.TimerConservation
import Libuzi.Timer.TimerDeletion
import Libuzi.Timer.TimerLaw
import Libuzi.Timer.TimerOrder
import Libuzi.Timer.TimerRelease
import Libuzi.Timer.TimerTermination
import Libuzi.Timer.TimerThreads
import Libuzi.Timer.TimerExclusion
import Libuzi.Timer.TimerRefinement
import Libuzi.Timer.TimerWakeups
import Libuzi.Timer.WaitableTimer
import Libuzi.Timer.WaitableTimerFailure
import Libuzi.Timer.WaitableTimerBackend
import Libuzi.Timer.WaitableTimerApc
import Libuzi.Timer.AddMs
import Libuzi.Timer.TimespecCompare
import Libuzi.Unicode.Convert
import Libuzi.Unicode.Encoding
import Libuzi.Unicode.Rounds
import Libuzi.Unicode.RoundTrip
import Libuzi.Unicode.Decode
import Libuzi.Unicode.LengthQuery
import Libuzi.Unicode.Accept
import Libuzi.Lists.SList
import Libuzi.Lists.DList
import Libuzi.Lists.ListDictionary
import Libuzi.Lists.DictionaryHeap
import Libuzi.Lists.DictionaryRefinement
import Libuzi.Lists.SListUnion
import Libuzi.Lists.SListSequence
import Libuzi.Lists.DictionaryLaws
import Libuzi.Lists.DictionaryOwnership
import Libuzi.Lists.DictionaryThreads
import Libuzi.Handle.Event
import Libuzi.Handle.WaitMultiple
import Libuzi.Handle.Foreign
import Libuzi.Handle.Dispatch
import Libuzi.Handle.WaitArrays
import Libuzi.Handle.WaitBooks
import Libuzi.Handle.EventRace
import Libuzi.Handle.WaitTokens
import Libuzi.Handle.EventDescriptors
import Libuzi.Handle.WaitSingle
import Libuzi.Handle.Semaphore
import Libuzi.Handle.WaitContended
import Libuzi.Handle.MutexWait
import Libuzi.Thread.Registry
import Libuzi.Thread.RegistryLaw
import Libuzi.Thread.CloseRace
import Libuzi.Thread.RegistrySteps
import Libuzi.Thread.RegistryDicts
import Libuzi.Thread.RegistryLifetime
import Libuzi.Thread.StartGate
import Libuzi.Thread.CreateFailure
import Libuzi.Thread.JoinDiscipline
import Libuzi.Memory.AlignedMalloc
import Libuzi.Memory.AlignedHeap
import Libuzi.Memory.AlignedRecalloc
import Libuzi.File.Path
import Libuzi.File.Load
import Libuzi.File.MkPath
import Libuzi.File.WidePath
import Libuzi.Android.CpuList
import Libuzi.Android.CpuCount
import Libuzi.Android.CpuInfo
import Libuzi.Android.CpuFeatures
import Libuzi.Android.CpuInit
