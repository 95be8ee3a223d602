import MhoLauncher.Launcher.Basic

open Bytes Memory Program WString

namespace Launcher

-- What does not change while the launcher runs.
structure Host where
  exePath      : Option WString
  loadLibraryW : DWord
  pid          : DWord
  no_nul       : ∀ s ∈ exePath, 0 ∉ s
  max_path     : ∀ s ∈ exePath, s.length ≤ 260

def Host.exeDir (h : Host) : WString :=
  directory <| h.exePath.getD []

def Host.iniPath (h : Host) : WString :=
  h.exeDir ++ L "ag_mho.ini"

-- A thread that another process has created. It has no handle once that is closed, and no exit code before
-- it ends.
structure Thread where
  handle    : Option DWord
  start     : DWord
  parameter : DWord
  code      : Option DWord

-- A process that the launcher has created. The `loaded` are the libraries that its remote threads have
-- loaded.
structure Client where
  info      : ProcessInformation
  suspended : Bool
  running   : Bool
  exited    : Bool
  memory    : Memory
  blocks    : List (DWord × Nat)
  threads   : List Thread
  loaded    : List WString

structure World where
  files    : WString → Option (List Char)
  clients  : List Client
  sections : List (List Char)
  log      : List Line
  keys     : List (Option Char)

def World.threads (w : World) : List Thread :=
  w.clients.flatMap Client.threads

def World.thread? (w : World) (handle : DWord) : Option Thread :=
  w.threads.find? (·.handle = some handle)

-- Changes the process that a handle belongs to.
def World.update (w : World) (process : DWord) (f : Client → Client) : World :=
  { w with clients := w.clients.map fun c => if c.info.hProcess = process then f c else c }

def World.mapThreads (w : World) (f : Thread → Thread) : World :=
  { w with clients := w.clients.map fun c => { c with threads := c.threads.map f } }

def STILL_ACTIVE : DWord := 259

-- What the functions of the system do. A file may be locked, and most of the functions may fail. Those that
-- only need a handle do not: `WaitForSingleObject`, `GetExitCodeThread` and `ResumeThread` are called with
-- handles that were returned with all rights and that are not closed yet, also if the process has exited. Their
-- results are not checked. Without a process `ResumeThread` gets a null handle, which changes nothing.
-- `GetModuleFileNameW` has the same result each time, and nobody else writes to a file.
def answers (h : Host) : (c : Call) → World → c.Result → World → Prop
  | .llog line, w, _, w' => w' = { w with log := w.log ++ [line] }
  | .getModuleFileNameW, w, r, w' => r = h.exePath ∧ w' = w
  | .openFile path, w, r, w' => (r = w.files path ∨ r = none) ∧ w' = w
  | .createFile path contents, w, r, w' =>
    (r = true ∧ w' = { w with files := Function.update w.files path <| some contents }) ∨ (r = false ∧ w' = w)
  | .createProcessW _ flags _, w, r, w' =>
    (r = none ∧ w' = w) ∨ ∃ info memory,
      r = some info ∧ info.hProcess ≠ 0 ∧ info.hThread ≠ 0 ∧ info.dwProcessId ≠ 0 ∧
      (∀ c ∈ w.clients, c.info.hProcess ≠ info.hProcess ∧ c.info.hThread ≠ info.hThread) ∧
      w' = { w with clients := w.clients ++ [{
        info, memory,
        suspended := flags &&& CREATE_SUSPENDED ≠ 0,
        running   := flags &&& CREATE_SUSPENDED = 0,
        exited    := false,
        blocks    := [],
        threads   := [],
        loaded    := [] }] }
  | .getLastError, w, _, w' => w' = w
  | .virtualAllocEx process size, w, r, w' =>
    (r = 0 ∧ w' = w) ∨
      (r ≠ 0 ∧ (∀ c ∈ w.clients, c.info.hProcess = process →
        ∀ b ∈ c.blocks, Disjoint (range r size) (range b.1 b.2)) ∧
      w' = w.update process fun c => { c with
        memory := c.memory.write r <| List.replicate size 0
        blocks := (r, size) :: c.blocks })
  -- All of the memory is checked before any of it is written.
  | .writeProcessMemory process address bytes, w, r, w' =>
    (r = true ∧ w' = w.update process fun c => { c with memory := c.memory.write address bytes }) ∨
      (r = false ∧ w' = w)
  | .getLoadLibraryW, w, r, w' => r = h.loadLibraryW ∧ w' = w
  | .createRemoteThread process start parameter, w, r, w' =>
    (r = 0 ∧ w' = w) ∨
      (r ≠ 0 ∧ (∀ t ∈ w.threads, t.handle ≠ some r) ∧ (∃ c ∈ w.clients, c.info.hProcess = process) ∧
      w' = w.update process fun c => { c with threads := c.threads ++ [⟨some r, start, parameter, none⟩] })
  | .waitForSingleObject thread, w, _, w' =>
    (∀ t ∈ w.thread? thread, t.code.isSome) ∧ w' = w
  | .getExitCodeThread thread, w, r, w' =>
    r = (w.thread? thread).elim 0 (·.code.getD STILL_ACTIVE) ∧ w' = w
  | .closeHandle handle, w, _, w' =>
    w' = w.mapThreads fun t => if t.handle = some handle then { t with handle := none } else t
  | .getpid, w, r, w' => r = h.pid ∧ w' = w
  | .mapMemory name _, w, r, w' =>
    (r = true ∧ w' = { w with sections := w.sections ++ [name] }) ∨ (r = false ∧ w' = w)
  | .crash, _, _, _ => False
  | .askKey _, w, r, w' => w' = { w with keys := w.keys ++ [r] }
  | .resumeThread thread, w, _, w' =>
    w' = { w with clients := w.clients.map fun c =>
      if c.info.hThread = thread then { c with running := true } else c }

-- What a process does meanwhile.
inductive Client.Moves (loadLibraryW : DWord) (c : Client) : Client → Prop
  -- It does not write to the memory that was allocated for it.
  | run {memory} : c.exited = false → (∀ b ∈ c.blocks, Set.EqOn memory c.memory (range b.1 b.2)) →
    Moves loadLibraryW c { c with memory }
  -- `LoadLibraryW` returns 0 if it does not load the library.
  | load {ts us handle parameter path} (code : DWord) : c.exited = false →
    c.threads = ts ++ ⟨handle, loadLibraryW, parameter, none⟩ :: us → At c.memory parameter path →
    Moves loadLibraryW c { c with
      threads := ts ++ ⟨handle, loadLibraryW, parameter, some code⟩ :: us
      loaded  := if code = 0 then c.loaded else c.loaded ++ [path] }
  -- Threads that still run get the exit code of the process.
  | exit (code : DWord) :
    Moves loadLibraryW c { c with
      exited  := true
      threads := c.threads.map fun t => { t with code := some <| t.code.getD code } }

inductive Moves (h : Host) (w : World) : World → Prop
  | intro {cs c c' ds} : w.clients = cs ++ c :: ds → Client.Moves h.loadLibraryW c c' →
    Moves h w { w with clients := cs ++ c' :: ds }

def environment (h : Host) : Environment Call Call.Result World where
  answers := answers h
  moves   := Moves h

def World.initial (files : WString → Option (List Char)) : World where
  files    := files
  clients  := []
  sections := []
  log      := []
  keys     := []

end Launcher
