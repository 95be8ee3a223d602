import MhoLauncher.Launcher.Lifecycle

open Bytes List Memory Program WString

namespace Launcher

variable {h : Host} {k k' : Phase} {pi : ProcessInformation} {suspended running : Bool}
    {libs rs : List WString} {path : WString} {a t : DWord} {w : World} {A B : Assertion h k}

namespace Assertion

theorem reported_append (log : List Line) (line : Line) :
    reported (log ++ [line]) = reported log ++ line.injected?.toList := by
  simp only [reported, filterMap_append]
  cases hl : line.injected? <;> simp [hl]

theorem At.mono (ha : A.At w) (hA : ∀ rs c, A.Holds rs c → B.Holds rs c) : B.At w where
  files    := ha.files
  sections := ha.sections
  entered  := ha.entered
  client   :=
    have ⟨c, hc, h⟩ := ha.client
    ⟨c, hc, hA _ _ h⟩

theorem At.log {line : Line} (ha : A.At w)
    (hA : ∀ rs c, A.Holds rs c → B.Holds (rs ++ line.injected?.toList) c) :
    B.At { w with log := w.log ++ [line] } where
  files    := ha.files
  sections := ha.sections
  entered  := ha.entered
  client   :=
    have ⟨c, hc, h⟩ := ha.client
    ⟨c, hc, (reported_append ..).symm ▸ hA _ _ h⟩

-- An assertion about a client that exists.
def ofClient (φ : List WString → Client → Prop)
    (stable : ∀ {rs c c'}, φ rs c → Client.Moves h.loadLibraryW c c' → φ rs c')
    (safe : ∀ {rs c}, φ rs c → c.Safe h k) : Assertion h k where
  Holds rs c := ∃ d, c = some d ∧ φ rs d
  stable     := by
    rintro rs c c' ⟨d, he, hφ⟩ hm
    cases he
    exact ⟨c', rfl, stable hφ hm⟩
  safe       := by
    rintro rs c ⟨d, he, hφ⟩
    cases he
    exact safe hφ

theorem At.update {process : DWord} {f : Client → Client} (ha : A.At w)
    (hf : ∀ rs c, w.clients = c.toList → A.Holds rs c →
      ∃ d, c = some d ∧ d.info.hProcess = process ∧ B.Holds rs (some <| f d)) :
    B.At (w.update process f) where
  files    := ha.files
  sections := ha.sections
  entered  := ha.entered
  client   :=
    have ⟨c, hc, hA⟩ := ha.client
    have ⟨d, he, hp, hB⟩ := hf _ _ hc hA
    ⟨some <| f d, by simp [World.update, hc, he, hp], hB⟩

end Assertion

open Assertion

theorem llog_triple {format : String} {args : List Arg} (hl : Line.injected? ⟨format, args⟩ = none)
    (hA : ∀ rs c, A.Holds rs c → B.Holds rs c) :
    Triple (environment h) (Safe h) A.At (llog format args) fun _ => B.At :=
  call fun w _ w' ha he => he ▸ ha.log fun rs c hr => by
    rw [hl, Option.toList_none, append_nil]
    exact hA rs c hr

theorem getLastError_triple : Triple (environment h) (Safe h) A.At (system .getLastError) fun _ => A.At :=
  call fun _ _ _ ha he => he ▸ ha

theorem and_triple {α : Type} {φ : Prop} {p : M α} {Q : α → World → Prop}
    (hp : φ → Triple (environment h) (Safe h) A.At p Q) : Triple (environment h) (Safe h) (A.and φ).At p Q := by
  intro w ha
  obtain ⟨_, _, hφ, _⟩ := ha.client
  exact hp hφ w <| ha.mono fun _ _ hA => hA.2

theorem getLoadLibraryW_triple :
    Triple (environment h) (Safe h) A.At (system .getLoadLibraryW) fun r => (A.and (r = h.loadLibraryW)).At :=
  call fun _ _ _ ha ⟨hr, he⟩ => he ▸ ha.mono fun _ _ hA => ⟨hr, hA⟩

-- The log of an error.
theorem failed_triple (line : DWord → Line) (hl : ∀ err, (line err).injected? = none)
    (hA : ∀ rs c, A.Holds rs c → B.Holds rs c) : Triple (environment h) (Safe h) A.At (do
      let err : DWord ← system .getLastError
      llog (line err).format (line err).args) fun _ => B.At :=
  getLastError_triple.bind fun err => llog_triple (hl err) hA

-- The launcher has only asked for libraries that it should ask for.
structure Fits (h : Host) (k : Phase) (suspended running : Bool) (libs : List WString) : Prop where
  sublist    : libs <+ libraries h k.files
  configured : suspended → config h k.files "inject_dll" ≠ 0
  entered    : suspended → running → k.entered

theorem Client.Knows.safe {c : Client} (f : Fits h k suspended running libs)
    (hk : c.Knows pi suspended running libs rs) (he : suspended → running → c.Ended) : c.Safe h k where
  held hs hr   :=
    have hs := hk.suspended ▸ hs
    have hr := hk.running ▸ hr
    ⟨f.entered hs hr, he hs hr⟩
  suspended hs := f.configured <| hk.suspended ▸ hs
  loads        :=
    have ⟨l, hl, hs⟩ := sublistForall₂_iff.mp hk.loads
    sublistForall₂_iff.mpr ⟨l, hl, hs.trans f.sublist⟩

-- There is no process, or no library is being loaded in it.
def idle (f : Fits h k suspended running libs) (pi : ProcessInformation) : Assertion h k where
  Holds rs c   := c.elim (pi = .zero ∧ rs = []) fun c =>
    pi.hProcess ≠ 0 ∧ c.Knows pi suspended running libs rs ∧ c.Ended
  stable hA hm := ⟨hA.1, hA.2.1.moves hA.2.2 hm⟩
  safe hA      := hA.2.1.safe f fun _ _ => hA.2.2

def Stays (h : Host) (φ : Client → Prop) : Prop :=
  ∀ {c c'}, φ c → Client.Moves h.loadLibraryW c c' → φ c'

-- The client is idle, and it is known what the log has still to report.
def known (f : Fits h k suspended running libs) (pi : ProcessInformation) (unsaid : List WString)
    (φ : Client → Prop) (hφ : Stays h φ) : Assertion h k :=
  .ofClient (fun rs c => c.Knows pi suspended running libs (rs ++ unsaid) ∧ c.Ended ∧ φ c)
    (fun hA hm =>
      have ⟨hk, he⟩ := hA.1.moves hA.2.1 hm
      ⟨hk, he, hφ hA.2.2 hm⟩)
    fun hA => hA.1.safe f fun _ _ => hA.2.1

theorem outcome_sublist (code : DWord) : libs ++ outcome path code <+ libs ++ [path] := by
  refine (Sublist.refl _).append ?_
  rw [outcome]
  split
  case isTrue  => exact nil_sublist _
  case isFalse => exact Sublist.refl _

theorem Fits.mono {libs' : List WString} (f : Fits h k suspended running libs') (hl : libs <+ libs') :
    Fits h k suspended running libs where
  sublist    := hl.trans f.sublist
  configured := f.configured
  entered    := f.entered

theorem Fits.outcome (f : Fits h k suspended running (libs ++ [path])) (code : DWord) :
    Fits h k suspended running (libs ++ outcome path code) :=
  f.mono <| outcome_sublist code

theorem Fits.init (f : Fits h k suspended running (libs ++ [path])) : Fits h k suspended running libs :=
  f.mono <| sublist_append_left ..

-- The thread `t` loads the library, or has ended with a code in `S`.
def loading (f : Fits h k suspended running (libs ++ [path])) (hn : suspended → running → False)
    (pi : ProcessInformation) (t : DWord) (S : Option DWord → Prop)
    (hS : ∀ {code code'}, S code → (∀ v ∈ code, code' = some v) → S code') : Assertion h k :=
  .ofClient (fun rs c => ∃ code, S code ∧ c.Loading h pi suspended running libs rs path t code)
    (fun ⟨_, hs, hl⟩ hm =>
      have ⟨code', hl, he⟩ := hl.moves hm
      ⟨code', hS hs he, hl⟩)
    fun {rs c} ⟨code, _, hl⟩ => by
      cases code
      case none     => exact (hl.knows.safe (f.mono <| by simp) fun hs hr => (hn hs hr).elim)
      case some v _ => exact hl.knows.safe (f.outcome v) fun hs hr => (hn hs hr).elim

section Calls

variable {f : Fits h k suspended running libs} {n : Nat}

def Client.Allocated (a : DWord) (n : Nat) (path : WString) (c : Client) : Prop :=
  (a, n) ∈ c.blocks ∧ c.Finds a path

theorem stays_true : Stays h fun _ => True :=
  fun _ _ => trivial

theorem stays_finds : Stays h (Client.Finds a path) :=
  fun hf hm => hf.moves hm

theorem stays_allocated : Stays h (Client.Allocated a n path) := by
  intro c c' ⟨hb, hf⟩ hm
  refine ⟨?_, hf.moves hm⟩
  cases hm <;> exact hb

theorem Client.Knows.congr {c c' : Client} (hk : c.Knows pi suspended running libs rs) (hi : c'.info = c.info)
    (hs : c'.suspended = c.suspended) (hr : c'.running = c.running) (he : c'.exited = c.exited)
    (hl : c'.loaded = c.loaded) : c'.Knows pi suspended running libs rs where
  info      := hi.trans hk.info
  suspended := hs.trans hk.suspended
  running   := hr.trans hk.running
  loads     := hl ▸ hk.loads
  reports   := hl ▸ hk.reports
  told      := fun hx => hl ▸ hk.told (he ▸ hx)

-- Fresh memory contains the empty path.
theorem virtualAllocEx_triple (path : WString) (hn : 2 ≤ n) (hl : n ≤ 2 ^ 32) :
    Triple (environment h) (Safe h) (known f pi [] (fun _ => True) stays_true).At
      (system <| .virtualAllocEx pi.hProcess n) fun a =>
        (if a = 0 then known f pi [] (fun _ => True) stays_true
          else known f pi [] (Client.Allocated a n path) stays_allocated : Assertion h k).At := by
  refine call fun w a w' ha he => ?_
  obtain ⟨rfl, rfl⟩ | ⟨h0, _, rfl⟩ := he
  case inl =>
    rw [if_pos rfl]
    exact ha
  case inr =>
    rw [if_neg h0]
    refine ha.update fun rs _ _ ⟨c, hc, hk, he, _⟩ => ?_
    refine ⟨c, hc, congrArg _ hk.info, _, rfl, hk.congr rfl rfl rfl rfl rfl, he, ?_⟩
    have hw : (c.memory.write a <| replicate n 0).Loaded a (replicate n 0) :=
      loaded_write <| length_replicate.trans_le hl
    have hz {m : Memory} (hm : m.Loaded a (replicate n 0)) : At m a [] := by
      obtain ⟨j, rfl⟩ := Nat.exists_eq_add_of_le' hn
      exact at_of_zeros hm
    have hb : (a, (replicate n (0 : Byte)).length) ∈ (a, n) :: c.blocks := by
      rw [length_replicate]
      exact mem_cons_self
    exact ⟨mem_cons_self, replicate n 0, [], hb, hw, .inr rfl, fun _ => hz⟩

theorem writeProcessMemory_triple (hp : 0 ∉ path) (hl : (bytes path).length ≤ 2 ^ 32) :
    Triple (environment h) (Safe h)
      (known f pi [] (Client.Allocated a (bytes path).length path) stays_allocated).At
      (system <| .writeProcessMemory pi.hProcess a <| bytes path)
      fun _ => (known f pi [] (Client.Finds a path) stays_finds).At := by
  refine call fun w r w' ha he => ?_
  obtain ⟨rfl, rfl⟩ | ⟨rfl, rfl⟩ := he
  case inl =>
    refine ha.update fun rs _ _ ⟨c, hc, hk, he, hb, _⟩ => ?_
    exact ⟨c, hc, congrArg _ hk.info, _, rfl, hk.congr rfl rfl rfl rfl rfl, he,
      bytes path, path, hb, loaded_write hl, .inl rfl, fun _ => at_of_loaded hp⟩
  case inr => exact ha.mono fun rs c ⟨d, hd, hk, he, _, hf⟩ => ⟨d, hd, hk, he, hf⟩

theorem thread?_of_loading {c : Client} {code : Option DWord} (hc : w.clients = [c])
    (hl : c.Loading h pi suspended running libs rs path t code) :
    ∃ a, w.thread? t = some ⟨some t, h.loadLibraryW, a, code⟩ := by
  obtain ⟨ts, a, ht, _, hu⟩ := hl.threads
  have hw : w.threads = ts ++ [⟨some t, h.loadLibraryW, a, code⟩] := by simp [World.threads, hc, ht]
  have hn : ts.find? (·.handle = some t) = none := find?_eq_none.mpr fun u hm => by simpa using (hu u hm).2
  exact ⟨a, by simp [World.thread?, hw, hn]⟩

end Calls

section Threads

variable {f : Fits h k suspended running (libs ++ [path])} {hn : suspended → running → False}

theorem createRemoteThread_triple (f : Fits h k suspended running (libs ++ [path]))
    (hn : suspended → running → False) :
    Triple (environment h) (Safe h) (known f.init pi [] (Client.Finds a path) stays_finds).At
      (system <| .createRemoteThread pi.hProcess h.loadLibraryW a) fun t =>
        (if t = 0 then known f.init pi [] (fun _ => True) stays_true
          else loading f hn pi t (fun _ => True) fun _ _ => trivial : Assertion h k).At := by
  refine call fun w t w' ha he => ?_
  obtain ⟨rfl, rfl⟩ | ⟨h0, ht, _, rfl⟩ := he
  case inl =>
    rw [if_pos rfl]
    exact ha.mono fun rs c ⟨d, hd, hk, he, _⟩ => ⟨d, hd, hk, he, trivial⟩
  case inr =>
    rw [if_neg h0]
    refine ha.update fun rs _ hw ⟨c, hc, hk, he, hf⟩ => ?_
    have hl : c.Knows pi suspended running (libs ++ []) (rs ++ []) := (append_nil libs).symm ▸ hk
    refine ⟨c, hc, congrArg _ hk.info, _, rfl, none, trivial, hl.congr rfl rfl rfl rfl rfl,
      c.threads, a, rfl, ⟨hf.exists_loaded⟩, fun u hu => ⟨he u hu, ht u ?_⟩⟩
    rw [World.threads, hw, hc]
    simpa using hu

theorem waitForSingleObject_triple :
    Triple (environment h) (Safe h) (loading f hn pi t (fun _ => True) fun _ _ => trivial).At
      (system <| .waitForSingleObject t) fun _ =>
        (loading f hn pi t (·.isSome) fun hs he => by
          obtain ⟨v, rfl⟩ := Option.isSome_iff_exists.mp hs
          rw [he v rfl]
          rfl).At := by
  refine call fun w _ w' ha ⟨hw, he⟩ => he ▸ ?_
  obtain ⟨_, hc, c, rfl, code, _, hl⟩ := ha.client
  obtain ⟨b, ht⟩ := thread?_of_loading hc hl
  exact ⟨ha.files, ha.sections, ha.entered, some c, hc, c, rfl, code, hw _ ht, hl⟩

theorem getExitCodeThread_triple {hS} :
    Triple (environment h) (Safe h) (loading f hn pi t (·.isSome) hS).At
      (system <| .getExitCodeThread t) fun r =>
        (loading f hn pi t (· = some r) fun hs he => he r hs).At := by
  refine call fun w r w' ha ⟨hr, he⟩ => he ▸ ?_
  obtain ⟨_, hc, c, rfl, code, hs, hl⟩ := ha.client
  obtain ⟨b, ht⟩ := thread?_of_loading hc hl
  obtain ⟨v, rfl⟩ := Option.isSome_iff_exists.mp hs
  have hv : r = v := by simpa [ht] using hr
  exact ⟨ha.files, ha.sections, ha.entered, some c, hc, c, rfl, some v, by rw [hv], hl⟩

-- Without its handle the thread is as good as those before it.
theorem closeHandle_triple {r : DWord} {hS} :
    Triple (environment h) (Safe h) (loading f hn pi t (· = some r) hS).At
      (system <| .closeHandle t) fun _ =>
        (known (f.outcome r) pi (outcome path r) (fun _ => True) stays_true).At := by
  refine call fun w _ w' ha he => he ▸ ?_
  obtain ⟨_, hc, c, rfl, _, rfl, hl⟩ := ha.client
  obtain ⟨ts, a, ht, _, hu⟩ := hl.threads
  refine ⟨ha.files, ha.sections, ha.entered, some _, congrArg (List.map _) hc, _, rfl,
    hl.knows.congr rfl rfl rfl rfl rfl, ?_, trivial⟩
  intro _ hm
  obtain ⟨u, hm', rfl⟩ := mem_map.mp hm
  have hs : u.code.isSome := by
    cases mem_append.mp <| ht ▸ hm'
    case inl hm => exact (hu u hm).1
    case inr hm => exact mem_singleton.mp hm ▸ rfl
  split <;> exact hs

end Threads

theorem takeWhile_ne_zero {s : WString} (hs : 0 ∉ s) : s.takeWhile (· ≠ 0) = s :=
  takeWhile_eq_self_iff.mpr fun _ hc => decide_eq_true fun he => hs <| he ▸ hc

-- What `inject_dll` does, whatever happens meanwhile.
theorem injectDll_triple (f : Fits h k suspended running (libs ++ [path])) (hn : suspended → running → False)
    (hp : 0 ∉ path) (hl : (bytes path).length ≤ 2 ^ 32) :
    Triple (environment h) (Safe h) (idle f.init pi).At (injectDll pi path) fun _ => (idle f pi).At := by
  -- A process that was given up on may have loaded less.
  have idle_mono {rs c} (hi : (idle f.init pi).Holds rs c) : (idle f pi).Holds rs c := by
    cases c
    case none   => exact hi
    case some c =>
      obtain ⟨h0, hk, he⟩ := hi
      exact ⟨h0, { hk with loads := sublistForall₂_append hk.loads }, he⟩
  by_cases h0 : pi.hProcess = 0
  case pos =>
    rw [injectDll, if_pos h0]
    exact llog_triple rfl fun _ _ => idle_mono
  case neg =>
    have to_idle {rs c} (hi : (known f.init pi [] (fun _ => True) stays_true).Holds rs c) :
        (idle f pi).Holds rs c := by
      obtain ⟨c, rfl, hk, he, _⟩ := hi
      exact idle_mono ⟨h0, append_nil rs ▸ hk, he⟩
    rw [injectDll, if_neg h0, takeWhile_ne_zero hp]
    refine .bind (R := fun _ => (known f.init pi [] (fun _ => True) stays_true).At)
      (llog_triple rfl fun rs c hi => ?_) fun _ => ?_
    · cases c
      case none   => exact absurd (congrArg ProcessInformation.hProcess hi.1) h0
      case some c => exact ⟨c, rfl, (append_nil rs).symm ▸ hi.2.1, hi.2.2, trivial⟩
    refine .bind (virtualAllocEx_triple path ?_ hl) fun a => ?_
    · rw [bytes_length]
      omega
    by_cases ha : a = 0
    case pos =>
      rw [if_pos ha, if_pos ha]
      exact failed_triple (fun err => ⟨"VirtualAllocEx failed (%lu)\n", [.number err]⟩)
        (fun _ => rfl) fun _ _ => to_idle
    case neg =>
      rw [if_neg ha, if_neg ha]
      refine .bind (writeProcessMemory_triple hp hl) fun _ => ?_
      refine .bind getLoadLibraryW_triple fun r => and_triple fun hr => ?_
      subst hr
      refine .bind (createRemoteThread_triple f hn) fun t => ?_
      by_cases ht : t = 0
      case pos =>
        rw [if_pos ht, if_pos ht]
        exact failed_triple (fun err => ⟨"CreateRemoteThread failed (%lu)\n", [.number err]⟩)
          (fun _ => rfl) fun _ _ => to_idle
      case neg =>
        rw [if_neg ht, if_neg ht]
        refine .bind waitForSingleObject_triple fun _ => .bind getExitCodeThread_triple fun v => ?_
        refine .bind closeHandle_triple fun _ => ?_
        by_cases hv : v = 0
        case pos =>
          rw [if_pos hv]
          refine llog_triple rfl fun rs _ ⟨c, hc, hk, he, _⟩ => ?_
          have hk : c.Knows pi suspended running (libs ++ []) (rs ++ []) := by
            simpa only [outcome, if_pos hv] using hk
          exact hc ▸ to_idle ⟨c, rfl, append_nil libs ▸ hk, he, trivial⟩
        case neg =>
          rw [if_neg hv]
          refine call fun w _ w' ha he => he ▸ ha.log fun rs _ ⟨c, hc, hk, he, _⟩ => ?_
          have hk : c.Knows pi suspended running (libs ++ [path]) (rs ++ [path]) := by
            simpa only [outcome, if_neg hv] using hk
          exact hc ▸ ⟨h0, hk, he⟩

end Launcher
