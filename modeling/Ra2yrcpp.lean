import Ra2yrcpp.Reasoning.Transition
import Ra2yrcpp.Reasoning.BinaryHeap
import Ra2yrcpp.AsyncQueue
import Ra2yrcpp.WebsocketServer.Delivery
import Ra2yrcpp.CommandManager.AtMostOnce
import Ra2yrcpp.CommandManager.AsyncResult
import Ra2yrcpp.CommandManager.QueueReuse
import Ra2yrcpp.CommandManager.IoWait
import Ra2yrcpp.CommandManager.BlockingRequest
import Ra2yrcpp.CommandManager.Shutdown
import Ra2yrcpp.StateParser.CellDiff
import Ra2yrcpp.StateParser.Objects
import Ra2yrcpp.WebsocketServer.Blocking
import Ra2yrcpp.StateContext
import Ra2yrcpp.SingleStep
import Ra2yrcpp.Hook.Locking
import Ra2yrcpp.Hook.Release
import Ra2yrcpp.Hook.Install
import Ra2yrcpp.Hook.Call
import Ra2yrcpp.InstrumentationService.ProcessRequest
import Ra2yrcpp.InstrumentationService.Storage
import Ra2yrcpp.InstrumentationClient.Pairing
import Ra2yrcpp.Protocol.MessageStream
import Ra2yrcpp.Hook.Registration
import Ra2yrcpp.MultiClient.Lifecycle
import Ra2yrcpp.MultiClient.Results
import Ra2yrcpp.WebsocketServer.AllowedHosts
import Ra2yrcpp.CommandManager.WorkQueue
import Ra2yrcpp.AsyncQueue.Pop
import Ra2yrcpp.AsyncQueue.Bounded
import Ra2yrcpp.CommandManager.ResultOrder
import Ra2yrcpp.AsyncQueue.WakeUp
import Ra2yrcpp.WorkerUtil
import Ra2yrcpp.CommandManager.OneCommand
import Ra2yrcpp.CommandManager.FailedCommand
import Ra2yrcpp.CommandManager.DoneCallback
import Ra2yrcpp.StateContext.AddedEvent
import Ra2yrcpp.StateContext.ObjectLookup
import Ra2yrcpp.Hook.CreateHooks
import Ra2yrcpp.Hook.CreateCallbacks
import Ra2yrcpp.Hook.Recording
import Ra2yrcpp.StateParser.Events
import Ra2yrcpp.InstrumentationService.HandleCmd
import Ra2yrcpp.CommandManager.ResultsLock
import Ra2yrcpp.CommandManager.QueueLifetime
import Ra2yrcpp.Reasoning.X86.Calls
import Ra2yrcpp.IsContext.DllLoader
import Ra2yrcpp.Reasoning.Splice
import Ra2yrcpp.PatchGamemd.Sections
import Ra2yrcpp.PatchGamemd.Detours
import Ra2yrcpp.PatchGamemd.PatchStrings
import Ra2yrcpp.PatchGamemd.RawPatches
import Ra2yrcpp.Reasoning.Digits
import Ra2yrcpp.Addscn
import Ra2yrcpp.StateContext.EventRing
import Ra2yrcpp.Reasoning.X86.Conventions
import Ra2yrcpp.Abi.Thunks
import Ra2yrcpp.Abi.FastCall
import Ra2yrcpp.Reasoning.Memo
import Ra2yrcpp.Reasoning.Window
import Ra2yrcpp.Abi.Caller
import Ra2yrcpp.IsContext.InjectDll
import Ra2yrcpp.StateParser.EventBuffer
import Ra2yrcpp.StateContext.EventFrame
import Ra2yrcpp.Reasoning.Refill
import Ra2yrcpp.StateParser.TypeClasses
import Ra2yrcpp.StateParser.Houses
import Ra2yrcpp.StateParser.MapData
import Ra2yrcpp.Snapshot.Model
import Ra2yrcpp.Snapshot.Frames
import Ra2yrcpp.Snapshot.Runs
import Ra2yrcpp.Snapshot.ReadValue
import Ra2yrcpp.Snapshot.Recorder
import Ra2yrcpp.Reasoning.Prog
import Ra2yrcpp.Commands.Model
import Ra2yrcpp.Commands.UnitOrders
import Ra2yrcpp.Commands.GameLoop
import Ra2yrcpp.Commands.Placement
import Ra2yrcpp.Commands.Cache
import Ra2yrcpp.Commands.Session
import Ra2yrcpp.Hook.Traffic
import Ra2yrcpp.Reasoning.X86.Images
import Ra2yrcpp.PatchGamemd.Execution
import Ra2yrcpp.Reasoning.Fields
import Ra2yrcpp.Addscn.File
import Ra2yrcpp.PatchGamemd.AutoPatch
import Ra2yrcpp.AtomicVariable
import Ra2yrcpp.IoService
