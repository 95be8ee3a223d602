import MhoLauncher.Ini.Basic
import MhoLauncher.Library.Program
import MhoLauncher.Library.WideString

open Bytes Memory Program

namespace Launcher

structure ProcessInformation where
  hProcess    : DWord
  hThread     : DWord
  dwProcessId : DWord
deriving DecidableEq

-- What `memset(&pi, 0, sizeof(pi))` makes of it.
def ProcessInformation.zero : ProcessInformation :=
  ⟨0, 0, 0⟩

-- The arguments of a line of the log.
inductive Arg
  -- A wide string, which is printed by `ws_2_s`.
  | wide (s : WString)
  | number (n : DWord)
  | int (i : Int)
  -- The result of `GetLastErrorAsString`.
  | message (error : DWord)

structure Line where
  format : String
  args   : List Arg

-- The calls to the system and what they depend on.
inductive Call
  | llog (line : Line)
  | getModuleFileNameW
  | openFile (path : WString)
  | createFile (path : WString) (contents : List Char)
  | createProcessW (cmdStr : WString) (flags : DWord) (workDir : WString)
  | getLastError
  | virtualAllocEx (process : DWord) (size : Nat)
  | writeProcessMemory (process address : DWord) (bytes : List Byte)
  -- `GetProcAddress(GetModuleHandleA("Kernel32"), "LoadLibraryW")`
  | getLoadLibraryW
  | createRemoteThread (process start parameter : DWord)
  | waitForSingleObject (thread : DWord)
  | getExitCodeThread (thread : DWord)
  | closeHandle (handle : DWord)
  | getpid
  | mapMemory (name : List Char) (size : Nat)
  -- An access violation of the launcher.
  | crash
  -- One round of a loop that asks for a key.
  | askKey (prompt : String)
  | resumeThread (thread : DWord)

abbrev Call.Result : Call → Type
  | llog _                => Unit
  | getModuleFileNameW    => Option WString
  | openFile _            => Option (List Char)
  | createFile ..         => Bool
  | createProcessW ..     => Option ProcessInformation
  | getLastError          => DWord
  | virtualAllocEx ..     => DWord
  | writeProcessMemory .. => Bool
  | getLoadLibraryW       => DWord
  | createRemoteThread .. => DWord
  | waitForSingleObject _ => Unit
  | getExitCodeThread _   => DWord
  | closeHandle _         => Unit
  | getpid                => DWord
  | mapMemory ..          => Bool
  | crash                 => Unit
  -- At the end of the input there is no character.
  | askKey _              => Option Char
  | resumeThread _        => Unit

abbrev M := Program Call Call.Result

def CREATE_SUSPENDED : DWord := 0x4
def DETACHED_PROCESS : DWord := 0x8
def CREATE_NEW_PROCESS_GROUP : DWord := 0x200
def CREATE_UNICODE_ENVIRONMENT : DWord := 0x400

-- A wide string literal.
def L (s : String) : WString :=
  s.toList.map fun c => BitVec.ofNat 16 c.toNat

def system (c : Call) : M c.Result :=
  perform c

def llog (format : String) (args : List Arg) : M Unit :=
  system <| .llog ⟨format, args⟩

def isSeparator (c : Word) : Bool :=
  c = 0x2F ∨ c = 0x5C

-- The part of a path up to its last separator.
def directory (path : WString) : WString :=
  path.rdropWhile fun c => !isSeparator c

def getExePath : M WString := do
  let path : Option WString ← system .getModuleFileNameW
  return path.getD []

def getExeDir : M WString := do
  return directory (← getExePath)

def agIniCreateIfMissing (path : WString) (contents : List Char) : M Bool := do
  let test : Option (List Char) ← system <| .openFile path
  if test.isSome then return false
  system <| .createFile path contents

def agIniRead (path : WString) : M Ini.Config := do
  let content : Option (List Char) ← system <| .openFile path
  return Ini.agIniRead content

-- `CreateMhoProcess` and `CreateMhoProcessOrg` differ in the flags and in what they log.
def createProcess (format : String) (logDir : Bool) (flags : DWord) (mhoDir mhoExe mhoArg workDir : WString) :
    M ProcessInformation := do
  let cmdStr := mhoDir ++ mhoExe ++ L " " ++ mhoArg
  llog format [.wide cmdStr]
  if logDir then llog "Working dir: \"%s\"\n" [.wide workDir]
  let ret : Option ProcessInformation ← system <| .createProcessW cmdStr flags workDir
  match ret with
  | none =>
    let err : DWord ← system .getLastError
    llog "CreateProcess failed (%lu) Msg:%s\n" [.number err, .message err]
    return .zero
  | some pi =>
    llog "Created Process Success (PID:%lu)\n" [.number pi.dwProcessId]
    return pi

def createMhoProcess : WString → WString → WString → WString → M ProcessInformation :=
  createProcess "Creating process: \"%s\"\n" true <|
    CREATE_SUSPENDED ||| CREATE_UNICODE_ENVIRONMENT ||| CREATE_NEW_PROCESS_GROUP ||| DETACHED_PROCESS

def createMhoProcessOrg : WString → WString → WString → WString → M ProcessInformation :=
  createProcess "Creating process (org): \"%s\"\n" false CREATE_UNICODE_ENVIRONMENT

-- What `inject_dll` logs if `LoadLibraryW` has returned a module.
def injected (dllPath : WString) (remoteHmodule : DWord) : Line :=
  ⟨"DLL injected successfully: \"%s\" (HMODULE=0x%08lX)\n", [.wide dllPath, .number remoteHmodule]⟩

def injectDll (pi : ProcessInformation) (dllPath : WString) : M Unit := do
  if pi.hProcess = 0 then
    llog "inject_dll: skipped, no process\n" []
  else
    llog "Injecting DLL: \"%s\"\n" [.wide dllPath]
    -- The string as `wcslen` sees it.
    let libPath := WString.bytes <| dllPath.takeWhile (· ≠ 0)
    let libBaseAddress : DWord ← system <| .virtualAllocEx pi.hProcess libPath.length
    if libBaseAddress = 0 then
      let err : DWord ← system .getLastError
      llog "VirtualAllocEx failed (%lu)\n" [.number err]
    else
      let _ ← system <| .writeProcessMemory pi.hProcess libBaseAddress libPath
      let loadLibraryProcAddress : DWord ← system .getLoadLibraryW
      let loadLibraryThread : DWord ←
        system <| .createRemoteThread pi.hProcess loadLibraryProcAddress libBaseAddress
      if loadLibraryThread = 0 then
        let err : DWord ← system .getLastError
        llog "CreateRemoteThread failed (%lu)\n" [.number err]
      else
        let _ ← system <| .waitForSingleObject loadLibraryThread
        let remoteHmodule : DWord ← system <| .getExitCodeThread loadLibraryThread
        let _ ← system <| .closeHandle loadLibraryThread
        if remoteHmodule = 0 then
          llog "DLL injection FAILED (LoadLibraryW returned NULL): \"%s\"\n" [.wide dllPath]
        else
          system <| .llog <| injected dllPath remoteHmodule

def injectLunch (pi : ProcessInformation) : M Unit := do
  injectDll pi <| (← getExeDir) ++ L "ag_mho.dll"

def injectHaunt (pi : ProcessInformation) : M Unit := do
  injectDll pi <| (← getExeDir) ++ L "haunt-x86.dll"

def sectionName (processId : DWord) : List Char :=
  "TCLS_SHAREDMEMEMORY".toList ++ processId.toNat.repr.toList

-- `TenProxyTclsSharedMeMemory::map`. Without a view the bytes that were not written are shown.
def map (processId : DWord) : M Unit := do
  let processId : DWord ← if processId = 0 then system .getpid else pure processId
  let mapped : Bool ← system <| .mapMemory (sectionName processId) 0xF001F
  if mapped then pure () else system .crash

-- The loop that ends with the end of a line.
def askKey (prompt : String) : M Unit :=
  waitUntil (Call.askKey prompt) fun c : Option Char => c == some '\n'

section

variable (s2ws : List Byte → WString)

-- The directory, the name and the arguments of the client.
def arguments : List (List Byte) → M (WString × WString × WString)
  | [_, arg] => do return (← getExeDir, L "MHOClient.exe", s2ws arg)
  | [_, dir, exe, arg] => return (s2ws dir, s2ws exe, s2ws arg)
  | _ => do
    return (← getExeDir, L "MHOClient.exe",
      L "-q 123456789 -src=tgp -game_id 45 -area 1 -zone_id 17306122 -nosplash")

def main (argv : List (List Byte)) : M Unit := do
  let (mhoDir, mhoExe, mhoArg) ← arguments s2ws argv
  let workDir := mhoDir
  llog "MHO Launcher\n" []
  llog "exe_dir: \"%s\"\n" [.wide (← getExeDir)]
  llog "mho_dir: \"%s\"\n" [.wide mhoDir]
  llog "mho_exe: \"%s\"\n" [.wide mhoExe]
  let iniPath := (← getExeDir) ++ L "ag_mho.ini"
  if ← agIniCreateIfMissing iniPath Ini.agMhoIniDefaults then
    llog "Created default config: \"%s\"\n" [.wide iniPath]
  let agCfg ← agIniRead iniPath
  let cfgInjectDll := Ini.agIniGetInt agCfg "inject_dll".toList 0
  let cfgInjectHaunt := Ini.agIniGetInt agCfg "inject_haunt".toList 0
  llog "config inject_dll = %d\n" [.int cfgInjectDll]
  llog "config inject_haunt = %d\n" [.int cfgInjectHaunt]
  if cfgInjectDll = 0 then
    let pi ← createMhoProcessOrg mhoDir mhoExe mhoArg workDir
    if cfgInjectHaunt ≠ 0 then injectHaunt pi
    map pi.dwProcessId
    askKey "\nPress a key to exit..."
  else
    let pi ← createMhoProcess mhoDir mhoExe mhoArg workDir
    injectLunch pi
    if cfgInjectHaunt ≠ 0 then injectHaunt pi
    askKey "\nPress a key to resume MHOClient.exe..."
    system <| .resumeThread pi.hThread

end

end Launcher
