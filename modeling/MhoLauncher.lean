import MhoLauncher.Library.Bytes
import MhoLauncher.Library.Cursor
import MhoLauncher.Library.Machine
import MhoLauncher.AgBuffer.Basic
import MhoLauncher.AgBuffer.Spec
import MhoLauncher.AgBuffer.Endianness
import MhoLauncher.AgBuffer.Invariant
import MhoLauncher.AgBuffer.Refinement
import MhoLauncher.AgBuffer.Capacity
import MhoLauncher.Library.Layout
import MhoLauncher.SharedMemory.Basic
import MhoLauncher.SharedMemory.Image
import MhoLauncher.Library.Memory
import MhoLauncher.Library.X86.Basic
import MhoLauncher.Library.X86.Decode
import MhoLauncher.Library.X86.Run
import MhoLauncher.HookTable.Basic
import MhoLauncher.HookTable.Trampoline
import MhoLauncher.HookTable.Install
import MhoLauncher.Tersafe.Basic
import MhoLauncher.Tersafe.Code
import MhoLauncher.Tersafe.Trampoline
import MhoLauncher.Tersafe.Transparency
import MhoLauncher.Tersafe.Nesting
import MhoLauncher.Tersafe.Slots
import MhoLauncher.CryGame.ProcessMemory
import MhoLauncher.CryGame.ProtocolDispatch
import MhoLauncher.CryGame.PathB
import MhoLauncher.CryGame.DispatchCycle
import MhoLauncher.HookTable.Failure
import MhoLauncher.CryGame.PathBResolve
import MhoLauncher.Library.Channel
import MhoLauncher.Log.Format
import MhoLauncher.Log.Shutdown
import MhoLauncher.AgBuffer.Block
import MhoLauncher.AgBuffer.Atomicity
import MhoLauncher.AgBuffer.BlockReads
import MhoLauncher.SharedMemory.HexDump
import MhoLauncher.SharedMemory.Map
import MhoLauncher.AgBuffer.Reads
import MhoLauncher.AgBuffer.RoundTrip
import MhoLauncher.AgBuffer.WideString
import MhoLauncher.Ini.Basic
import MhoLauncher.Ini.RoundTrip
import MhoLauncher.Ini.LineEndings
import MhoLauncher.Library.X86.Flags
import MhoLauncher.Tersafe.Flags
import MhoLauncher.Library.X86.Format
import MhoLauncher.Tersafe.InlinePatch
import MhoLauncher.Library.Traced
import MhoLauncher.ProtocalHandler.Tpdu
import MhoLauncher.ProtocalHandler.Transparency
import MhoLauncher.Library.CString
import MhoLauncher.Library.Unicode
import MhoLauncher.Log.DebugString
import MhoLauncher.AgBuffer.Available
import MhoLauncher.Library.Agrees
import MhoLauncher.AgBuffer.Uninitialised
import MhoLauncher.CryGame.Backtrace
import MhoLauncher.Library.SeenSet
import MhoLauncher.MhoHandlers.CallerPairs
import MhoLauncher.AgBuffer.SwapEndianness
import MhoLauncher.HexDump.Text
import MhoLauncher.TersafeStub.Calls
import MhoLauncher.DumpModule.Basic
import MhoLauncher.DumpModule.Image
import MhoLauncher.ConcurrentQueue.Semaphore
import MhoLauncher.ConcurrentQueue.Progress
import MhoLauncher.Tersafe.Install
import MhoLauncher.Tersafe.SubTables
import MhoLauncher.Tersafe.Observers
import MhoLauncher.Tersafe.Readback
import MhoLauncher.Tersafe.ObservedCalls
import MhoLauncher.Library.X86.Relocate
import MhoLauncher.HookTable.Tables
import MhoLauncher.HookTable.Threads
import MhoLauncher.Launcher.Runs
import MhoLauncher.ConcurrentQueue.Calls
import MhoLauncher.Log.Events
import MhoLauncher.CryGame.PathBHooks
import MhoLauncher.MhoHandlers.Races
import MhoLauncher.MhoHandlers.Serial
import MhoLauncher.ProtocalHandler.Session
