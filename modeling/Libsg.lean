import Libsg.TransitionSystem
import Libsg.TcpSessionState
import Libsg.TcpSessionStep
import Libsg.TcpSessionMove
import Libsg.TcpSessionLifeCycle
import Libsg.TcpSessionStop
import Libsg.TcpSessionDrain
import Libsg.TcpSessionPairing
import Libsg.TcpSessionControl
import Libsg.TcpSessionEnd
import Libsg.TcpServerState
import Libsg.TcpServerStep
import Libsg.TcpServerMove
import Libsg.TcpServerLock
import Libsg.TcpServerConn
import Libsg.TcpServerRegistry
import Libsg.TcpServerCallbacks
import Libsg.Crc
import Libsg.BoundedSuffix
import Libsg.RollingContiguousBuffer
import Libsg.StateMachine
import Libsg.Worker
import Libsg.WorkerExclusive
import Libsg.WorkerTrace
import Libsg.AsioIoPool
import Libsg.AsioIoPoolCycle
import Libsg.AsioIoPoolTrace
import Libsg.AsioIoPoolDeadlock
import Libsg.TcpServerFailedStart
import Libsg.TcpServerReentry
import Libsg.CountBelow
import Libsg.TcpServerPhase
import Libsg.TcpServerAccount
import Libsg.TcpServerShutdown
import Libsg.CrcBigEndian
import Libsg.CrcHardware
import Libsg.Delimiter
import Libsg.TcpClientSync
import Libsg.FileWriter
import Libsg.StateMachineLife
import Libsg.StateMachineRestart
import Libsg.TcpSessionAccount
import Libsg.TcpSessionPending
import Libsg.TcpServerErrors
import Libsg.RateLimit
import Libsg.TcpServerBackoff
import Libsg.TcpClientConnect
import Libsg.TcpMessages
import Libsg.TcpSessionOver
import Libsg.TcpClient
import Libsg.AsioIoPoolFailure
import Libsg.WorkerStart
import Libsg.WorkerIterations
import Libsg.WorkerStopAfter
import Libsg.StateMachineCallbacks
import Libsg.StateMachineThrows
import Libsg.StateMachineUnregistered
import Libsg.FileWriterSemaphore
import Libsg.FileWriterStream
import Libsg.BinarySearch
import Libsg.Bounds
import Libsg.MachineInteger
import Libsg.Version
import Libsg.Bytes
import Libsg.Ranges
import Libsg.Math
import Libsg.CompressionZstd
import Libsg.File
import Libsg.Buffer
import Libsg.BufferOwnership
import Libsg.BufferLength
import Libsg.Channel
import Libsg.Enumeration
import Libsg.RollingContiguousBufferIteration
import Libsg.RollingContiguousBufferRefinement
import Libsg.BackgroundTimer
import Libsg.RollingContiguousBufferStorage
import Libsg.RollingContiguousBufferShifts
import Libsg.BackgroundTimerTask
import Libsg.ReflectedPolynomial
import Libsg.CrcResidue
import Libsg.CrcArmv8
import Libsg.CrcIntel
import Libsg.ReflectedDetection
import Libsg.CrcDetection
import Libsg.CrcPiecewise
import Libsg.IntrusiveList
import Libsg.StopCallbacks
import Libsg.CallStack
import Libsg.StopCallbackInvariant
import Libsg.StopCallbackLinks
import Libsg.StopCallbackRuns
import Libsg.StopState
import Libsg.StopCallbackReferences
