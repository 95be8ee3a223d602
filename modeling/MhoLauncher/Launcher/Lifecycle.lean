import MhoLauncher.Launcher.System

open Bytes List Memory Program WString

namespace Launcher

variable {h : Host}

-- The path of a library, which is empty if it could not be written.
def Meant (s path : WString) : Prop :=
  s = path ∨ s = []

-- The library that a line of the log reports.
def Line.injected? : Line → Option WString
  | ⟨format, [.wide path, .number _]⟩ =>
    if format = "DLL injected successfully: \"%s\" (HMODULE=0x%08lX)\n" then some path else none
  | _ => none

def reported (log : List Line) : List WString :=
  log.filterMap Line.injected?

section

variable (h) (files : WString → Option (List Char))

def config (key : String) : Int :=
  Ini.agIniGetInt (Ini.agIniRead <| files h.iniPath) key.toList 0

-- The libraries that the configuration asks for, in the order in which they are to be loaded.
def libraries : List WString :=
  (if config h files "inject_dll" = 0 then [] else [h.exeDir ++ L "ag_mho.dll"]) ++
    if config h files "inject_haunt" = 0 then [] else [h.exeDir ++ L "haunt-x86.dll"]

end

-- At no time is there more than one client, nor does it load a library that it should not. One that was
-- created suspended does not run before it has loaded what it will load and a line was entered.
structure Safe (h : Host) (w : World) : Prop where
  single    : w.clients.length ≤ 1
  held      : ∀ c ∈ w.clients, c.suspended → c.running →
    some '\n' ∈ w.keys ∧ ∀ t ∈ c.threads, t.code.isSome
  suspended : ∀ c ∈ w.clients, c.suspended → config h w.files "inject_dll" ≠ 0
  loads     : ∀ c ∈ w.clients, SublistForall₂ Meant c.loaded (libraries h w.files)

-- What does not change from a call to the next one.
structure Phase where
  files    : WString → Option (List Char)
  sections : List (List Char)
  entered  : Prop

structure Client.Safe (h : Host) (k : Phase) (c : Client) : Prop where
  held      : c.suspended → c.running → k.entered ∧ ∀ t ∈ c.threads, t.code.isSome
  suspended : c.suspended → config h k.files "inject_dll" ≠ 0
  loads     : SublistForall₂ Meant c.loaded (libraries h k.files)

-- What is known of the client, if there is one, and of the libraries that the log reports. It stays true
-- whatever the client does.
structure Assertion (h : Host) (k : Phase) where
  Holds  : List WString → Option Client → Prop
  stable : ∀ {rs c c'}, Holds rs (some c) → Client.Moves h.loadLibraryW c c' → Holds rs (some c')
  safe   : ∀ {rs c}, Holds rs (some c) → c.Safe h k

namespace Assertion

variable {k : Phase}

structure At (A : Assertion h k) (w : World) : Prop where
  files    : w.files = k.files
  sections : w.sections = k.sections
  entered  : k.entered → some '\n' ∈ w.keys
  client   : ∃ c : Option Client, w.clients = c.toList ∧ A.Holds (reported w.log) c

variable {A B : Assertion h k} {w : World}

theorem at_stable : Stable (environment h) A.At := by
  intro w w' ha hm
  obtain ⟨c, hc, hA⟩ := ha.client
  obtain @⟨cs, d, d', ds, hd, hm⟩ := hm
  obtain ⟨rfl, rfl, rfl⟩ : cs = [] ∧ ds = [] ∧ c = some d := by
    cases c
    case none   => simp [hc] at hd
    case some c =>
      have he := hc.symm.trans hd
      rw [Option.toList_some, eq_comm, append_eq_singleton_iff] at he
      obtain ⟨rfl, he⟩ | ⟨_, he⟩ := he
      case inl => simp_all
      case inr => simp at he
  exact ⟨ha.files, ha.sections, ha.entered, some d', rfl, A.stable hA hm⟩

theorem At.safe (ha : A.At w) : Safe h w := by
  obtain ⟨c, hc, hA⟩ := ha.client
  cases c
  case none   => constructor <;> simp [hc]
  case some c =>
    have hs := A.safe hA
    constructor
    case single    => simp [hc]
    case held      =>
      intro d hd hp hr
      obtain rfl : d = c := by simpa [hc] using hd
      exact ⟨ha.entered (hs.held hp hr).1, (hs.held hp hr).2⟩
    case suspended =>
      intro d hd
      obtain rfl : d = c := by simpa [hc] using hd
      exact ha.files ▸ hs.suspended
    case loads     =>
      intro d hd
      obtain rfl : d = c := by simpa [hc] using hd
      exact ha.files ▸ hs.loads

-- The rule for a call.
theorem call {c : Call} {k' : c.Result → Phase} {B : ∀ r, Assertion h (k' r)}
    (ha : ∀ w r w', A.At w → answers h c w r w' → (B r).At w') :
    Triple (environment h) (Safe h) A.At (system c) fun r => (B r).At :=
  .perform at_stable (fun _ => At.safe) ha (fun _ => at_stable) fun _ _ => At.safe

-- The assertion with a fact that does not depend on the state.
def and (A : Assertion h k) (φ : Prop) : Assertion h k where
  Holds rs c    := φ ∧ A.Holds rs c
  stable hA hm  := ⟨hA.1, A.stable hA.2 hm⟩
  safe hA       := A.safe hA.2

end Assertion

-- What is reported for a thread that has ended.
def outcome (path : WString) (code : DWord) : List WString :=
  if code = 0 then [] else [path]

-- What a client has been created as, and what is known of its libraries. The exit code of a client that exits
-- is taken for a module, so that more may be reported than it has loaded.
structure Client.Knows (pi : ProcessInformation) (suspended running : Bool) (libs rs : List WString)
    (c : Client) : Prop where
  info      : c.info = pi
  suspended : c.suspended = suspended
  running   : c.running = running
  loads     : SublistForall₂ Meant c.loaded libs
  reports   : SublistForall₂ Meant c.loaded rs
  told      : c.exited = false → Forall₂ Meant c.loaded rs

def Client.Ended (c : Client) : Prop :=
  ∀ t ∈ c.threads, t.code.isSome

-- Whatever the client does, `LoadLibraryW` finds the path at the address.
structure Client.Finds (a : DWord) (path : WString) (c : Client) : Prop where
  exists_loaded : ∃ bytes s, (a, bytes.length) ∈ c.blocks ∧ c.memory.Loaded a bytes ∧ Meant s path ∧
    ∀ m, m.Loaded a bytes → At m a s

-- The last thread loads the library.
structure Client.Loading (h : Host) (pi : ProcessInformation) (suspended running : Bool)
    (libs rs : List WString) (path : WString) (t : DWord) (code : Option DWord) (c : Client) : Prop where
  knows   : c.Knows pi suspended running (libs ++ code.elim [] (outcome path)) <|
    rs ++ code.elim [] (outcome path)
  threads : ∃ ts a, c.threads = ts ++ [⟨some t, h.loadLibraryW, a, code⟩] ∧ c.Finds a path ∧
    ∀ u ∈ ts, u.code.isSome ∧ u.handle ≠ some t

section Moves

variable {pi : ProcessInformation} {suspended running : Bool} {libs libs' rs rs' : List WString}
    {path s : WString} {a t : DWord} {code : Option DWord} {c c' : Client}

theorem forall₂_concat {l l' : List WString} (h : Forall₂ Meant l l') (hs : Meant s path) :
    Forall₂ Meant (l ++ [s]) (l' ++ [path]) :=
  rel_append h <| .cons hs .nil

theorem sublistForall₂_append (h : SublistForall₂ Meant rs libs) : SublistForall₂ Meant rs (libs ++ libs') := by
  obtain ⟨l, hl, hs⟩ := sublistForall₂_iff.mp h
  exact sublistForall₂_iff.mpr ⟨l, hl, hs.trans <| sublist_append_left ..⟩

theorem sublistForall₂_concat (h : SublistForall₂ Meant rs libs) (hs : Meant s path) :
    SublistForall₂ Meant (rs ++ [s]) (libs ++ [path]) := by
  obtain ⟨l, hl, hs'⟩ := sublistForall₂_iff.mp h
  exact sublistForall₂_iff.mpr ⟨l ++ [path], forall₂_concat hl hs, hs'.append_right _⟩

theorem sublistForall₂_outcome (hl : SublistForall₂ Meant rs libs) (hs : Meant s path) (v : DWord) :
    SublistForall₂ Meant (if v = 0 then rs else rs ++ [s]) (libs ++ outcome path v) := by
  by_cases hv : v = 0
  case pos => simpa only [outcome, if_pos hv, append_nil] using hl
  case neg => simpa only [outcome, if_neg hv] using sublistForall₂_concat hl hs

-- A thread that ends does not load more, and one that has ended keeps its exit code.
theorem sublistForall₂_exit (hl : SublistForall₂ Meant rs (libs ++ code.elim [] (outcome path))) (v : DWord) :
    SublistForall₂ Meant rs (libs ++ outcome path (code.getD v)) := by
  cases code
  case none => exact sublistForall₂_append <| by simpa using hl
  case some => exact hl

theorem Client.Finds.moves (hf : c.Finds a path) (hm : Client.Moves h.loadLibraryW c c') : c'.Finds a path := by
  obtain ⟨bytes, s, hb, hl, hs, hr⟩ := hf.exists_loaded
  cases hm
  case run _ hm   => exact ⟨bytes, s, hb, hl.congr <| hm _ hb, hs, hr⟩
  case load _ _ _ => exact ⟨bytes, s, hb, hl, hs, hr⟩
  case exit       => exact ⟨bytes, s, hb, hl, hs, hr⟩

theorem Client.Finds.meant (hf : c.Finds a path) (hs : At c.memory a s) : Meant s path := by
  obtain ⟨bytes, s', _, hl, hm, hr⟩ := hf.exists_loaded
  exact hs.unique (hr _ hl) ▸ hm

-- Nothing is loaded by threads that have ended.
theorem Client.Knows.moves (hk : c.Knows pi suspended running libs rs) (he : c.Ended)
    (hm : Client.Moves h.loadLibraryW c c') : c'.Knows pi suspended running libs rs ∧ c'.Ended := by
  cases hm
  case run        => exact ⟨{ hk with }, he⟩
  case load ht _  =>
    have hs := he ⟨_, h.loadLibraryW, _, none⟩ <| ht ▸ mem_append_right _ mem_cons_self
    cases hs
  case exit code  =>
    refine ⟨{ hk with told := fun hx => by cases hx }, fun t ht => ?_⟩
    obtain ⟨_, _, rfl⟩ := mem_map.mp ht
    rfl

-- A thread that has not ended is the last one.
theorem eq_last {α : Type} {l ts us : List α} {x u : α} (hx : l ++ [x] = ts ++ u :: us) (hu : u ∉ l) :
    l = ts ∧ x = u ∧ us = [] := by
  rcases us.eq_nil_or_concat with rfl | ⟨us, y, rfl⟩
  case inl =>
    have ⟨hl, he⟩ := append_inj' hx rfl
    exact ⟨hl, head_eq_of_cons_eq he, rfl⟩
  case inr =>
    rw [concat_eq_append, ←cons_append, ←append_assoc] at hx
    have ⟨hl, _⟩ := append_inj' hx rfl
    exact absurd (hl ▸ mem_append_right _ mem_cons_self) hu

theorem Client.Loading.moves (hl : c.Loading h pi suspended running libs rs path t code)
    (hm : Client.Moves h.loadLibraryW c c') :
    ∃ code', c'.Loading h pi suspended running libs rs path t code' ∧ ∀ v ∈ code, code' = some v := by
  obtain ⟨ts, a, ht, hf, hu⟩ := hl.threads
  have hf' := hf.moves hm
  have hk := hl.knows
  cases hm
  case run        =>
    exact ⟨code, ⟨{ hk with }, ts, a, ht, hf', hu⟩, fun _ h => h⟩
  case exit v     =>
    refine ⟨some <| code.getD v, ⟨{ hk with
      loads   := sublistForall₂_exit hk.loads v
      reports := sublistForall₂_exit hk.reports v
      told    := fun hx => by cases hx },
      ts.map fun t => { t with code := some <| t.code.getD v }, a, by simp [ht], hf', ?_⟩, ?_⟩
    case refine_1 =>
      intro u hm
      obtain ⟨u', hm', rfl⟩ := mem_map.mp hm
      exact ⟨rfl, (hu u' hm').2⟩
    case refine_2 =>
      rintro v rfl
      rfl
  case load ts' us handle parameter s v hx ht' hs =>
    obtain ⟨rfl, he, rfl⟩ := eq_last (ht.symm.trans ht') fun hm => by cases (hu _ hm).1
    cases he
    have hm : Meant s path := hf.meant hs
    have hl : SublistForall₂ Meant c.loaded libs := by simpa using hk.loads
    have hr : SublistForall₂ Meant c.loaded rs := by simpa using hk.reports
    refine ⟨some v, ⟨{ hk with
      loads   := sublistForall₂_outcome hl hm v
      reports := sublistForall₂_outcome hr hm v
      told    := fun hx => ?_ }, ts, a, rfl, hf', hu⟩, fun _ h => by cases h⟩
    have ht : Forall₂ Meant c.loaded rs := by simpa using hk.told hx
    by_cases hv : v = 0
    case pos => simpa only [Option.elim_some, outcome, if_pos hv, append_nil] using ht
    case neg => simpa only [Option.elim_some, outcome, if_neg hv] using forall₂_concat ht hm

end Moves

end Launcher
