import MhoLauncher.Ini.RoundTrip
import MhoLauncher.Launcher.Injection

open Bytes List Memory Program WString

namespace Launcher

-- What is left when the launcher ends. The client runs, its remote threads have ended, and the log has told
-- what they loaded, and nothing else unless the client has exited. The shared memory has the name that the
-- client looks for, unless the library is to map it in the client.
structure Done (w : World) : Prop where
  entered  : some '\n' ∈ w.keys
  running  : ∀ c ∈ w.clients, c.running ∧ ∀ t ∈ c.threads, t.code.isSome
  reports  : ∀ c ∈ w.clients, SublistForall₂ Meant c.loaded (reported w.log)
  told     : ∀ c ∈ w.clients, c.exited = false → Forall₂ Meant c.loaded (reported w.log)
  sections : ∀ c ∈ w.clients, w.sections = if c.suspended then [] else [sectionName c.info.dwProcessId]

variable {h : Host} {k : Phase} {A B : Assertion h k} {pi : ProcessInformation} {suspended running : Bool}
    {libs : List WString} {files : WString → Option (List Char)}

open Assertion

-- The process has not been created.
def noClient (h : Host) (k : Phase) : Assertion h k where
  Holds rs c   := c = none ∧ rs = []
  stable hA    := by cases hA.1
  safe hA      := by cases hA.1

theorem exeDir_start (h : Host) : h.exeDir <+: h.exePath.getD [] :=
  rdropWhile_prefix _ _

theorem no_nul_exeDir (h : Host) : 0 ∉ h.exeDir := by
  intro hm
  have hs := (exeDir_start h).subset hm
  cases he : h.exePath
  case none   => simp [he] at hs
  case some s => exact h.no_nul s he <| by simpa [he] using hs

theorem exeDir_length (h : Host) : h.exeDir.length ≤ 260 := by
  refine (exeDir_start h).length_le.trans ?_
  cases he : h.exePath
  case none   => exact Nat.zero_le _
  case some s => exact h.max_path s he

theorem pure_triple {α : Type} {a : α} {Q : α → World → Prop} (hQ : ∀ w, A.At w → Q a w) :
    Triple (environment h) (Safe h) A.At (pure a) Q :=
  .pure at_stable (fun _ => At.safe) hQ

theorem getExeDir_triple :
    Triple (environment h) (Safe h) A.At getExeDir fun r => (A.and (r = h.exeDir)).At := by
  have hc : Triple (environment h) (Safe h) A.At (system .getModuleFileNameW) fun r =>
      (A.and (r = h.exePath)).At := call fun _ _ _ ha ⟨hr, he⟩ => he ▸ ha.mono fun _ _ hA => ⟨hr, hA⟩
  have hp : Triple (environment h) (Safe h) A.At getExePath fun r => (A.and (r = h.exePath.getD [])).At :=
    hc.bind fun r => pure_triple fun _ ha => ha.mono fun _ _ hA => ⟨congrArg (Option.getD · []) hA.1, hA.2⟩
  exact hp.bind fun r => pure_triple fun _ ha => ha.mono fun _ _ hA => ⟨congrArg directory hA.1, hA.2⟩

theorem arguments_triple (s2ws : List Byte → WString) (argv : List (List Byte)) :
    Triple (environment h) (Safe h) A.At (arguments s2ws argv) fun _ => A.At := by
  have hd {exe arg : WString} : Triple (environment h) (Safe h) A.At (do
      return (← getExeDir, exe, arg)) fun _ => A.At :=
    getExeDir_triple.bind fun r => pure_triple fun _ ha => ha.mono fun _ _ hA => hA.2
  fun_cases arguments s2ws argv
  case case1 => exact hd
  case case2 => exact pure_triple fun _ ha => ha
  case case3 => exact hd

theorem agIniCreateIfMissing_triple (path : WString) (contents : List Char) :
    Triple (environment h) (Safe h) (noClient h ⟨files, [], False⟩).At (agIniCreateIfMissing path contents)
      fun _ w => ∃ files, (noClient h ⟨files, [], False⟩).At w := by
  refine .bind (R := fun _ => (noClient h ⟨files, [], False⟩).At)
    (call fun _ _ _ ha ⟨_, he⟩ => he ▸ ha) fun test => ?_
  cases test
  case some => exact pure_triple fun w ha => ⟨files, ha⟩
  case none =>
    refine .perform at_stable (fun _ => At.safe) (fun w r w' ha he => ?_) (fun _ => .exists fun _ => at_stable)
      fun _ w ⟨_, ha⟩ => ha.safe
    obtain ⟨_, rfl⟩ | ⟨_, rfl⟩ := he
    case inl => exact ⟨_, ⟨congrArg (Function.update · _ _) ha.files, ha.sections, ha.entered, ha.client⟩⟩
    case inr => exact ⟨files, ha⟩

theorem agIniRead_triple (path : WString) :
    Triple (environment h) (Safe h) A.At (agIniRead path) fun r =>
      (A.and (r = Ini.agIniRead (k.files path) ∨ r = Ini.agIniRead none)).At := by
  refine .bind (R := fun r => (A.and (r = k.files path ∨ r = none)).At) (call fun _ _ _ ha ⟨hr, he⟩ => ?_)
    fun r => pure_triple fun w ha => ha.mono fun _ _ hA => ?_
  · exact he ▸ ha.mono fun _ _ hA => ⟨ha.files ▸ hr, hA⟩
  · exact ⟨hA.1.imp (congrArg Ini.agIniRead) (congrArg Ini.agIniRead), hA.2⟩

-- A new client has loaded nothing.
theorem createProcess_triple {format : String} {logDir : Bool} {flags : DWord}
    {mhoDir mhoExe mhoArg workDir : WString} (f : Fits h k suspended running [])
    (hs : decide (flags &&& CREATE_SUSPENDED ≠ 0) = suspended)
    (hr : decide (flags &&& CREATE_SUSPENDED = 0) = running) :
    Triple (environment h) (Safe h) (noClient h k).At
      (createProcess format logDir flags mhoDir mhoExe mhoArg workDir)
      fun pi => ((idle f pi).and (pi.hProcess ≠ 0 → pi.dwProcessId ≠ 0)).At := by
  have hl {format : String} {s : WString} : Triple (environment h) (Safe h) (noClient h k).At
      (llog format [.wide s]) fun _ => (noClient h k).At := llog_triple rfl fun _ _ hA => hA
  have hp {cmdStr : WString} : Triple (environment h) (Safe h) (noClient h k).At
      (system <| .createProcessW cmdStr flags workDir) fun r =>
        ((idle f <| r.getD .zero).and (∀ pi ∈ r, pi.dwProcessId ≠ 0)).At := by
    refine call fun w r w' ha he => ?_
    obtain ⟨_, hc, rfl, hA⟩ := ha.client
    obtain ⟨rfl, rfl⟩ | ⟨pi, m, rfl, h0, _, hi, _, rfl⟩ := he
    case inl => exact ⟨ha.files, ha.sections, ha.entered, none, hc, fun _ h => (by cases h), rfl, hA⟩
    case inr =>
      refine ⟨ha.files, ha.sections, ha.entered, some _, congrArg (· ++ [_]) hc, ?_, h0, ?_, ?_⟩
      case refine_1 =>
        intro _ he
        cases he
        exact hi
      case refine_2 => exact ⟨rfl, hs, hr, .nil, .nil, fun _ => (congrArg (Forall₂ Meant []) hA).mpr .nil⟩
      case refine_3 => exact fun _ h => by cases h
  rw [createProcess]
  refine hl.bind fun _ => ?_
  cases logDir
  case' true => refine hl.bind fun _ => ?_
  all_goals
    refine hp.bind fun r => and_triple fun hi => ?_
    cases r
    case none =>
      refine getLastError_triple.bind fun err => .bind (llog_triple rfl fun _ _ hA => hA) fun _ => ?_
      exact pure_triple fun w ha => ha.mono fun _ _ hA => ⟨fun h0 => absurd rfl h0, hA⟩
    case some pi =>
      refine .bind (llog_triple rfl fun _ _ hA => hA) fun _ => pure_triple fun w ha => ?_
      exact ha.mono fun _ _ hA => ⟨fun _ => hi pi rfl, hA⟩

theorem injectLibrary_triple {s : String} (f : Fits h k suspended running (libs ++ [h.exeDir ++ L s]))
    (hn : suspended → running → False) (hz : 0 ∉ L s) (hl : (L s).length ≤ 20) :
    Triple (environment h) (Safe h) (idle f.init pi).At (do injectDll pi <| (← getExeDir) ++ L s)
      fun _ => (idle f pi).At := by
  refine getExeDir_triple.bind fun r => and_triple fun hr => ?_
  subst hr
  refine injectDll_triple f hn ?_ ?_
  case refine_1 =>
    intro hm
    exact (mem_append.mp hm).elim (no_nul_exeDir h) hz
  case refine_2 =>
    have := exeDir_length h
    rw [bytes_length, length_append]
    omega

theorem Fits.congr {k' : Phase} (f : Fits h k suspended running libs) (hf : k'.files = k.files)
    (he : k.entered → k'.entered) : Fits h k' suspended running libs where
  sublist     := hf ▸ f.sublist
  configured  := hf ▸ f.configured
  entered s r := he <| f.entered s r

theorem Fits.map (f : Fits h k suspended running libs) (name : List Char) :
    Fits h { k with sections := [name] } suspended running libs :=
  f.congr rfl id

theorem Fits.enter (f : Fits h k suspended running libs) :
    Fits h { k with entered := True } suspended running libs :=
  f.congr rfl fun _ => trivial

-- The client may run because a line was entered.
theorem Fits.resume (f : Fits h k suspended running libs) (hk : k.entered) : Fits h k suspended true libs where
  sublist     := f.sublist
  configured  := f.configured
  entered _ _ := hk

-- There is one section, which is named after the client.
def mapped (f : Fits h k suspended running libs) (pi : ProcessInformation) (name : List Char) :
    Assertion h { k with sections := [name] } :=
  (idle (f.map name) pi).and (pi.hProcess ≠ 0 → name = sectionName pi.dwProcessId)

theorem map_triple (f : Fits h k suspended running libs) (hi : pi.hProcess ≠ 0 → pi.dwProcessId ≠ 0)
    (hk : k.sections = []) :
    Triple (environment h) (Safe h) (idle f pi).At (map pi.dwProcessId) fun _ w =>
      ∃ name, (mapped f pi name).At w := by
  have hm {id : DWord} (hn : pi.hProcess ≠ 0 → id = pi.dwProcessId) :
      Triple (environment h) (Safe h) (idle f pi).At (do
        let mapped : Bool ← system <| .mapMemory (sectionName id) 0xF001F
        if mapped then pure () else system .crash) fun _ w => ∃ name, (mapped f pi name).At w := by
    let B (r : Bool) : Assertion h { k with sections := if r then [sectionName id] else [] } :=
      idle (f.congr rfl fun h => h) pi
    refine .bind (R := fun r => (B r).At) (call fun w r w' ha he => ?_) fun r => ?_
    case refine_1 =>
      have hs := ha.sections.trans hk
      obtain ⟨rfl, rfl⟩ | ⟨rfl, rfl⟩ := he
      case inl => exact ⟨ha.files, congrArg (· ++ [_]) hs, ha.entered, ha.client⟩
      case inr => exact ⟨ha.files, hs, ha.entered, ha.client⟩
    case refine_2 =>
      cases r
      case true  =>
        refine pure_triple fun w ha => ⟨sectionName id, ha.files, ha.sections, ha.entered, ?_⟩
        obtain ⟨c, hc, hA⟩ := ha.client
        exact ⟨c, hc, fun h0 => congrArg sectionName <| hn h0, hA⟩
      case false =>
        exact .perform at_stable (fun _ => At.safe) (fun _ _ _ _ he => he.elim)
          (fun _ => .exists fun _ => at_stable) fun _ w ⟨_, ha⟩ => ha.safe
  rw [map]
  split
  case isTrue h0  =>
    refine .bind (R := fun _ => (idle f pi).At) (call fun _ _ _ ha ⟨_, he⟩ => he ▸ ha) fun id => ?_
    exact hm fun hp => absurd h0 <| hi hp
  case isFalse h0 => exact hm fun _ => rfl

theorem askKey_triple {prompt : String} (f : Fits h k suspended running libs) :
    Triple (environment h) (Safe h) (idle f pi).At (askKey prompt) fun _ => (idle f.enter pi).At := by
  refine .waitUntil at_stable (fun _ => At.safe) (fun w r w' ha he _ => ?_) (fun w r w' ha he hd => ?_)
    at_stable fun _ => At.safe
  case refine_1 =>
    refine he ▸ ⟨ha.files, ha.sections, fun hk => mem_append_left _ <| ha.entered hk, ha.client⟩
  case refine_2 =>
    have hr : r = some '\n' := by simpa using hd
    exact he ▸ ⟨ha.files, ha.sections, fun _ => mem_append_right _ <| hr ▸ mem_cons_self, ha.client⟩

theorem resumeThread_triple (f : Fits h k suspended running libs) (hk : k.entered) :
    Triple (environment h) (Safe h) (idle f pi).At (system <| .resumeThread pi.hThread) fun _ =>
      (idle (f.resume hk) pi).At := by
  refine call fun w r w' ha he => he ▸ ?_
  obtain ⟨c, hc, hA⟩ := ha.client
  cases c
  case none   => exact ⟨ha.files, ha.sections, ha.entered, none, congrArg (List.map _) hc, hA⟩
  case some c =>
    obtain ⟨h0, hk, he⟩ := hA
    refine ⟨ha.files, ha.sections, ha.entered, some { c with running := true }, ?_, h0,
      { hk with running := rfl }, he⟩
    simp [hc, hk.info]

theorem done_of_idle {w : World} (f : Fits h k suspended true libs) (ha : (idle f pi).At w) (hk : k.entered)
    (hs : pi.hProcess ≠ 0 → k.sections = if suspended then [] else [sectionName pi.dwProcessId]) : Done w := by
  obtain ⟨c, hc, hA⟩ := ha.client
  cases c
  case none   => constructor <;> simp [hc, ha.entered hk]
  case some c =>
    obtain ⟨h0, hk', he⟩ := hA
    have hm {d : Client} (hd : d ∈ w.clients) : d = c := by simpa [hc] using hd
    constructor
    case entered  => exact ha.entered hk
    case running  => exact fun d hd => hm hd ▸ ⟨hk'.running, he⟩
    case reports  => exact fun d hd => hm hd ▸ hk'.reports
    case told     => exact fun d hd => hm hd ▸ hk'.told
    case sections => exact fun d hd => hm hd ▸ ha.sections.trans (hk'.suspended ▸ hk'.info ▸ hs h0)

section Main

variable {mhoDir mhoExe mhoArg workDir : WString} {haunt : Int}

-- The ends of the two branches of `main`.
theorem exit_triple (f : Fits h ⟨files, [], False⟩ false true libs)
    (hi : pi.hProcess ≠ 0 → pi.dwProcessId ≠ 0) :
    Triple (environment h) (Safe h) (idle f pi).At (do
      map pi.dwProcessId
      askKey "\nPress a key to exit...") fun _ => Done := by
  refine .bind (map_triple f hi rfl) fun _ => .of_forall fun name => and_triple fun hn => ?_
  refine (askKey_triple (f.map name)).mono (fun _ ha => ha) fun _ w ha => ?_
  exact done_of_idle (f.map name).enter ha trivial fun h0 => congrArg (fun s => [s]) <| hn h0

theorem resume_triple (f : Fits h ⟨files, [], False⟩ true false libs) :
    Triple (environment h) (Safe h) (idle f pi).At (do
      askKey "\nPress a key to resume MHOClient.exe..."
      system <| .resumeThread pi.hThread) fun _ => Done := by
  refine .bind (askKey_triple f) fun _ => ?_
  refine (resumeThread_triple f.enter trivial).mono (fun _ ha => ha) fun _ w ha => ?_
  exact done_of_idle (f.enter.resume trivial) ha trivial fun _ => rfl

-- Without `inject_dll` only one library may be loaded, and the client runs from the start.
theorem org_triple (hh : haunt ≠ 0 → config h files "inject_haunt" ≠ 0) :
    Triple (environment h) (Safe h) (noClient h ⟨files, [], False⟩).At (do
      let pi ← createMhoProcessOrg mhoDir mhoExe mhoArg workDir
      if haunt ≠ 0 then injectHaunt pi
      map pi.dwProcessId
      askKey "\nPress a key to exit...") fun _ => Done := by
  have f : Fits h ⟨files, [], False⟩ false true [] := ⟨nil_sublist _, nofun, nofun⟩
  refine .bind (createProcess_triple f rfl rfl) fun pi => and_triple fun hi => ?_
  dsimp only
  split
  case isFalse    => exact exit_triple f hi
  case isTrue h0 =>
    have f : Fits h ⟨files, [], False⟩ false true ([] ++ [h.exeDir ++ L "haunt-x86.dll"]) :=
      ⟨by simp [libraries, hh h0], nofun, nofun⟩
    exact .bind (injectLibrary_triple f nofun (by decide) (by decide)) fun _ => exit_triple f hi

theorem inject_triple (hd : config h files "inject_dll" ≠ 0)
    (hh : haunt ≠ 0 → config h files "inject_haunt" ≠ 0) :
    Triple (environment h) (Safe h) (noClient h ⟨files, [], False⟩).At (do
      let pi ← createMhoProcess mhoDir mhoExe mhoArg workDir
      injectLunch pi
      if haunt ≠ 0 then injectHaunt pi
      askKey "\nPress a key to resume MHOClient.exe..."
      system <| .resumeThread pi.hThread) fun _ => Done := by
  have f : Fits h ⟨files, [], False⟩ true false ([] ++ [h.exeDir ++ L "ag_mho.dll"]) :=
    ⟨by simp [libraries, hd], fun _ => hd, nofun⟩
  refine .bind (createProcess_triple f.init rfl rfl) fun pi => and_triple fun hi => ?_
  refine .bind (injectLibrary_triple f nofun (by decide) (by decide)) fun _ => ?_
  dsimp only
  split
  case isFalse    => exact resume_triple f
  case isTrue h0 =>
    have f : Fits h ⟨files, [], False⟩ true false <|
        [h.exeDir ++ L "ag_mho.dll"] ++ [h.exeDir ++ L "haunt-x86.dll"] :=
      ⟨by simp [libraries, hd, hh h0], fun _ => hd, nofun⟩
    exact .bind (injectLibrary_triple f nofun (by decide) (by decide)) fun _ => resume_triple f

-- An unreadable configuration asks for nothing.
theorem config_of_read {cfg : Ini.Config} {key : String}
    (hc : cfg = Ini.agIniRead (files h.iniPath) ∨ cfg = Ini.agIniRead none)
    (h0 : Ini.agIniGetInt cfg key.toList 0 ≠ 0) : config h files key ≠ 0 := by
  cases hc
  case inl he => exact fun hz => h0 <| he ▸ hz
  case inr he => exact absurd (Ini.agIniGetInt_of_none <| he ▸ rfl) h0

theorem main_triple (h : Host) (s2ws : List Byte → WString) (argv : List (List Byte))
    (files : WString → Option (List Char)) :
    Triple (environment h) (Safe h) (· = .initial files) (main s2ws argv) fun _ => Done := by
  have hn (w) (hw : w = World.initial files) : (noClient h ⟨files, [], False⟩).At w :=
    hw ▸ ⟨rfl, rfl, nofun, none, rfl, rfl, rfl⟩
  have hl {files} {format : String} {s : WString} :
      Triple (environment h) (Safe h) (noClient h ⟨files, [], False⟩).At (llog format [.wide s])
        fun _ => (noClient h ⟨files, [], False⟩).At := llog_triple rfl fun _ _ hA => hA
  have hi {files} {format : String} {i : Int} :
      Triple (environment h) (Safe h) (noClient h ⟨files, [], False⟩).At (llog format [.int i])
        fun _ => (noClient h ⟨files, [], False⟩).At := llog_triple rfl fun _ _ hA => hA
  refine .mono (.bind (arguments_triple s2ws argv) fun (mhoDir, mhoExe, mhoArg) => ?_) hn fun _ _ hd => hd
  refine .bind (llog_triple rfl fun _ _ hA => hA) fun _ => .bind getExeDir_triple fun _ => ?_
  refine and_triple fun _ => hl.bind fun _ => hl.bind fun _ => hl.bind fun _ => ?_
  refine .bind getExeDir_triple fun dir => and_triple fun hd => ?_
  subst hd
  refine .bind (agIniCreateIfMissing_triple _ _) fun created => .of_forall fun files => ?_
  have hr : Triple (environment h) (Safe h) (noClient h ⟨files, [], False⟩).At (do
      let agCfg ← agIniRead h.iniPath
      let cfgInjectDll := Ini.agIniGetInt agCfg "inject_dll".toList 0
      let cfgInjectHaunt := Ini.agIniGetInt agCfg "inject_haunt".toList 0
      llog "config inject_dll = %d\n" [.int cfgInjectDll]
      llog "config inject_haunt = %d\n" [.int cfgInjectHaunt]
      if cfgInjectDll = 0 then
        let pi ← createMhoProcessOrg mhoDir mhoExe mhoArg mhoDir
        if cfgInjectHaunt ≠ 0 then injectHaunt pi
        map pi.dwProcessId
        askKey "\nPress a key to exit..."
      else
        let pi ← createMhoProcess mhoDir mhoExe mhoArg mhoDir
        injectLunch pi
        if cfgInjectHaunt ≠ 0 then injectHaunt pi
        askKey "\nPress a key to resume MHOClient.exe..."
        system <| .resumeThread pi.hThread) fun _ => Done := by
    refine .bind (agIniRead_triple _) fun cfg => and_triple fun hc => hi.bind fun _ => hi.bind fun _ => ?_
    split
    case isTrue     => exact org_triple <| config_of_read hc
    case isFalse h0 => exact inject_triple (config_of_read hc h0) <| config_of_read hc
  dsimp only
  split
  case isTrue  => exact hl.bind fun _ => hr
  case isFalse => exact hr

end Main

theorem reaches_call {α : Type} {c : Call} {next : c.Result → M α} {w t : World} {r : c.Result}
    {c' : M α × World} (ha : answers h c w r t) (hr : Reaches (environment h) (next r, t) c') :
    Reaches (environment h) (.call c next, w) c' :=
  .head (.call ha) hr

theorem reaches_llog {α : Type} {line : Line} {next : Unit → M α} {w : World} {c' : M α × World}
    (hr : Reaches (environment h) (next (), { w with log := w.log ++ [line] }) c') :
    Reaches (environment h) (.call (.llog line) next, w) c' :=
  reaches_call rfl hr

theorem reaches_move {α : Type} {p : M α} {cs ds : List Client} {c d : Client} {w : World} {c' : M α × World}
    (hw : w.clients = cs ++ c :: ds) (hm : Client.Moves h.loadLibraryW c d)
    (hr : Reaches (environment h) (p, { w with clients := cs ++ d :: ds }) c') :
    Reaches (environment h) (p, w) c' :=
  .head (.move <| .intro hw hm) hr

def localHost : Host where
  exePath      := some <| L "C:/mho/ag_mho.exe"
  loadLibraryW := 0x76541000
  pid          := 1
  no_nul       := by rintro s ⟨⟩; decide
  max_path     := by rintro s ⟨⟩; decide

end Launcher
