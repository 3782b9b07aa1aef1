import DbLab.Generation.SwitchRecovery
import DbLab.Lib.Interleaving

/-!
# Routed operations during a compact copy

The compact copy is made without the writer lease, so the operations of a handle run between its steps. Only
the names of the candidate change under them. Whenever the scan of the namespace meets the directory without
the staging name of the copy, the operation finds its authority and the log as they were (`Undisturbed`), and
the handle answers as its append log alone would.
-/

namespace DbLab.Generation

open Log Record

variable {α β : Type} {d d' d₁ : Directory} {ns : GenerationNamespace} {n g : ℕ} {name : Name}

/-- The step of a look at the directory. -/
def readAct (f : Directory → Except GenerationError α) (io : Io) (d : Directory) :
    Except GenerationError α × Directory :=
  match io with
  | .success => (f d, d)
  | .failure _ => (.error .io, d)

/-- A step that scans the namespace finds the directory admissible. -/
def ScansAdmissible (n : ℕ) (β : Type) (act : Io → Directory → β × Directory) (d : Directory) : Prop :=
  (⟨β, act⟩ : Σ β : Type, Io → Directory → β × Directory) = ⟨_, readAct scanGenerationNamespace⟩ → Admissible n d

/-- The task ends well between the steps of a copy for the generation `n`. -/
abbrev Undisturbed (n : ℕ) (P : α → Directory → Prop) (t : DirTask α) (d : Directory) : Prop :=
  Task.Amid (Aside n) (ScansAdmissible n) P t d

namespace Undisturbed

variable {P : β → Directory → Prop} {a : α}

theorem bind {t : DirTask α} {f : α → DirTask β}
    (h : Undisturbed n (fun a d => Undisturbed n P (f a) d) t d) : Undisturbed n P (t >>= f) d :=
  Task.Amid.bind (Aside.refl n) h

theorem look {f : Directory → Except GenerationError α} {next : α → DirTask β}
    (hf : ∀ d₁, Aside n d d₁ → f d₁ = .ok a) (h : Undisturbed n P (next a) d) :
    Undisturbed n P (reading f >>= next) d := by
  refine bind (Task.Amid.act fun d₁ h₁ _ => ⟨a, d₁, ?_, fun d₂ h₂ => h.trans Aside.trans (h₁.trans h₂)⟩)
  show (f d₁, d₁) = _
  rw [hf d₁ h₁]

theorem scan {next : GenerationNamespace → DirTask β}
    (hok : ∀ d₁, Aside n d d₁ → Admissible n d₁ → ∃ ns, scanGenerationNamespace d₁ = .ok ns)
    (h : ∀ d₁ ns, Aside n d d₁ → scanGenerationNamespace d₁ = .ok ns → Undisturbed n P (next ns) d) :
    Undisturbed n P (Generation.scan >>= next) d := by
  refine bind (Task.Amid.act fun d₁ h₁ hmay => ?_)
  obtain ⟨ns, hns⟩ := hok d₁ h₁ (hmay rfl)
  refine ⟨ns, d₁, ?_, fun d₂ h₂ => (h d₁ ns h₁ hns).trans Aside.trans (h₁.trans h₂)⟩
  show (scanGenerationNamespace d₁, d₁) = _
  rw [hns]

theorem check {r : Except GenerationError α} {next : α → DirTask β} (hr : r = .ok a)
    (h : Undisturbed n P (next a) d) : Undisturbed n P (Task.ofExcept r >>= next) d := by
  subst hr
  exact h

theorem pass {p : Prop} [Decidable p] {e : GenerationError} {next : Unit → DirTask β} (hp : ¬ p)
    (h : Undisturbed n P (next ()) d) : Undisturbed n P (rejectWhen p e >>= next) d := by
  rw [rejectWhen, if_neg hp]
  exact h

theorem readRegular {label : String} {bytes : Bytes} {next : Bytes → DirTask β}
    (hfind : ∀ d₁, Aside n d d₁ → d₁.find name = some (.regular bytes)) (h : Undisturbed n P (next bytes) d) :
    Undisturbed n P (Generation.readRegular label name >>= next) d :=
  look (fun d₁ h₁ => by rw [hfind d₁ h₁]) h

end Undisturbed

/-! ### What the copy leaves alone -/

/-- The highest marker is that of the generation `g`. -/
structure Authority (n : ℕ) (d : Directory) (g : ℕ) : Prop where
  closed : Closed n d
  pos : 0 < g
  lt : g < u64Limit
  ne : g ≠ n
  marked : d.Has (canonicalMarkerName g)
  highest : ∀ id, 0 < id → id < u64Limit → d.Has (canonicalMarkerName id) → id ≤ g

section Copy

variable (hpos : 0 < n) (hlt : n < u64Limit)

include hpos hlt

theorem Authority.aside (h : Authority n d g) (ha : Aside n d d₁) : Authority n d₁ g where
  closed := h.closed.aside hlt ha hpos
  pos := h.pos
  lt := h.lt
  ne := h.ne
  marked := by
    rw [Directory.Has, ha.marker_eq hlt h.lt]
    exact h.marked
  highest := by
    intro id hid hidlt hhas
    rw [Directory.Has, ha.marker_eq hlt hidlt] at hhas
    exact h.highest id hid hidlt hhas

omit hpos hlt in
theorem Authority.max (h : Authority n d g) (hscan : scanGenerationNamespace d = .ok ns) :
    ns.markerFiles.max = some g := by
  have hmem : ∀ id, id ∈ ns.markerFiles ↔ d.Has (canonicalMarkerName id) ∧ 0 < id ∧ id < u64Limit :=
    fun id => mem_files_of_scan (k := .commit) hscan
  refine le_antisymm (Finset.max_le fun id hid => ?_) (Finset.le_max ((hmem g).2 ⟨h.marked, h.pos, h.lt⟩))
  obtain ⟨hhas, hidpos, hidlt⟩ := (hmem id).1 hid
  exact WithBot.coe_le_coe.2 (h.highest id hidpos hidlt hhas)

/-- What a verification reads and checks of the generation `g`. -/
structure Proven (d : Directory) (g : ℕ) (markerFile log : Bytes) (marker : CommitMarker)
    (report proved : VerificationReport) : Prop where
  markerFile_at : d.find (canonicalMarkerName g) = some (.regular markerFile)
  marker_ok : Generation.readCommitMarker markerFile g = .ok marker
  logFormat : marker.logFormatVersion = appendLogFormatVersion
  log_at : d.find (canonicalGenerationName g) = some (.regular log)
  log_ok : verifyLog log = .ok report
  format_eq : report.fileFormatVersion = marker.logFormatVersion
  prefix_ok : provePrefix log marker.committedPrefix = .ok proved
  bound : requireBoundLog marker report = .ok ()

variable {markerFile log : Bytes} {marker : CommitMarker} {report proved : VerificationReport}

omit hpos in
theorem Proven.aside (h : Proven d g markerFile log marker report proved) (ha : Aside n d d₁) (hg : g < u64Limit)
    (hne : g ≠ n) : Proven d₁ g markerFile log marker report proved :=
  { h with
    markerFile_at := by rw [ha.marker_eq hlt hg]; exact h.markerFile_at
    log_at := by rw [ha.log_eq hlt hg hne]; exact h.log_at }

/-- **The verification** of the selected generation is not disturbed. -/
theorem undisturbed_verify (ha : Authority n d g) (hp : Proven d g markerFile log marker report proved) :
    Undisturbed n (fun s d' => s.authoritativeGeneration = g ∧ s.authoritativeLog = canonicalGenerationName g ∧
      Aside n d d') verifyGenerationDirectory d := by
  have hmarkerFile : ∀ d₁, Aside n d d₁ → d₁.find (canonicalMarkerName g) = some (.regular markerFile) :=
    fun d₁ h₁ => (hp.aside hlt h₁ ha.lt ha.ne).markerFile_at
  have hlog : ∀ d₁, Aside n d d₁ → d₁.find (canonicalGenerationName g) = some (.regular log) :=
    fun d₁ h₁ => (hp.aside hlt h₁ ha.lt ha.ne).log_at
  refine Undisturbed.scan (fun d₁ h₁ hadm => (ha.aside hpos hlt h₁).closed.scan hlt hpos hadm)
    fun d₁ ns h₁ hscan => ?_
  have hlisted : g ∈ ns.generationFiles := by
    refine (mem_files_of_scan (k := .generation) hscan).2 ⟨?_, ha.pos, ha.lt⟩
    have hfind := hlog d₁ h₁
    rw [Directory.Has]
    show (d₁.find (canonicalGenerationName g)).isSome
    rw [hfind]
    rfl
  obtain ⟨highest, hhighest⟩ := GenerationNamespace.exists_highest (k := .generation) hlisted
  have hmax := (ha.aside hpos hlt h₁).max hscan
  simp only [hmax, hhighest]
  refine .readRegular hmarkerFile (.check hp.marker_ok (.pass (not_not.2 hp.logFormat)
    (.pass (not_not.2 hlisted) (.readRegular hlog (.check hp.log_ok (.pass (not_not.2 hp.format_eq)
    (.readRegular hlog (.check hp.prefix_ok (.check hp.bound ?_)))))))))
  exact Task.Amid.pure fun d₂ h₂ => ⟨rfl, rfl, h₂⟩

omit hpos hlt in
/-- The repair of the log keeps what is proven of it. -/
theorem Proven.repaired {engine : LogEngine} (hp : Proven d g markerFile log marker report proved)
    (hg : g < u64Limit) (hopen : LogEngine.openFile (some log) = .ok engine) :
    ∃ report', Proven (d.insert (canonicalGenerationName g) (.regular engine.log.file)) g markerFile
      engine.log.file marker report' proved := by
  have hmarker : canonicalMarkerName g ≠ canonicalGenerationName g := names_ne (by decide) hg
  obtain ⟨scan, hscan, rfl⟩ := verifyLog_eq_ok.1 hp.log_ok
  obtain ⟨engine', hopen', -, hfile⟩ := LogEngine.openFile_of_scan hscan
  obtain rfl : engine' = engine := Except.ok.inj (hopen'.symm.trans hopen)
  obtain ⟨ms, hholds⟩ := LogEngine.holds_of_openFile hopen
  -- the file that is open has no tail, and all of it is valid
  obtain ⟨k, scan', -, hscan', -, hvalid', htail'⟩ := scan_appended hholds [] le_rfl
  have hlen' : scan'.validBytes = engine'.log.file.length := by
    rw [hvalid']
    simp [LogEngine.performAll, RecordFormat.recordStart, RecordFormat.recordsBytes]
  replace hscan' : scanFile engine'.log.file = .ok scan' := by
    simpa only [LogEngine.performAll, List.take_length] using hscan'
  obtain ⟨hbytes, hcrc, hrest⟩ := verifyCommittedPrefix_eq_ok.1 (provePrefix_eq_ok.1 hp.prefix_ok)
  have hbound : marker.committedPrefix.bytes ≤ scan.validBytes := by
    have h := hp.bound
    unfold requireBoundLog at h
    by_contra hlt
    rw [if_pos (by simpa [verification] using hlt)] at h
    cases h
  have hlength : marker.committedPrefix.bytes ≤ engine'.log.file.length := by
    rw [hfile]
    split
    · rw [List.length_take]
      exact le_min hbound hbytes
    · exact hbytes
  have htake : engine'.log.file.take marker.committedPrefix.bytes = log.take marker.committedPrefix.bytes := by
    rw [hfile]
    split
    · rw [List.take_take, min_eq_left hbound]
    · rfl
  have hle : marker.committedPrefix.bytes ≤ scan'.validBytes := by
    rw [hlen']
    exact hlength
  have hbound' : requireBoundLog marker (verification scan') = .ok () := by
    unfold requireBoundLog
    have hnot : ¬ (verification scan').validBytes < marker.committedPrefix.bytes := not_lt.2 hle
    rw [if_neg hnot]
    split
    · rename_i tail hsome
      rw [if_neg (not_lt.2 ((htail' tail hsome).symm ▸ hle))]
    · rfl
  refine ⟨verification scan', ?_⟩
  exact
    { markerFile_at := by rw [Directory.find_insert, if_neg hmarker]; exact hp.markerFile_at
      marker_ok := hp.marker_ok
      logFormat := hp.logFormat
      log_at := by rw [Directory.find_insert, if_pos rfl]
      log_ok := verifyLog_eq_ok.2 ⟨scan', hscan', rfl⟩
      format_eq := hp.format_eq
      prefix_ok := by
        rw [provePrefix_eq_ok, verifyCommittedPrefix_eq_ok, htake]
        exact ⟨hlength, hcrc, hrest⟩
      bound := hbound' }

omit hpos hlt in
theorem Authority.insert_log {entry : Entry} (h : Authority n d g) :
    Authority n (d.insert (canonicalGenerationName g) entry) g where
  closed := by
    intro name entry' hfind
    by_cases hname : name = canonicalGenerationName g
    · exact .inl ⟨.generation, g, hname, h.pos, h.lt, by simp⟩
    · rw [Directory.find_insert, if_neg hname] at hfind
      exact h.closed name entry' hfind
  pos := h.pos
  lt := h.lt
  ne := h.ne
  marked := Directory.has_insert.2 (.inr h.marked)
  highest := by
    intro id hid hidlt hhas
    rcases Directory.has_insert.1 hhas with hname | hhas
    · have hkind := (canonicalName_injective hidlt h.lt hname).1
      cases hkind
    · exact h.highest id hid hidlt hhas

/-- **The open of the authoritative log** is not disturbed. -/
theorem undisturbed_resolve {engine : LogEngine} (ha : Authority n d g)
    (hp : Proven d g markerFile log marker report proved) (hopen : LogEngine.openFile (some log) = .ok engine) :
    Undisturbed n (fun r d' => r = (g, engine) ∧ Authority n d' g ∧
      d'.find (canonicalGenerationName g) = some (.regular engine.log.file)) (resolveAuthority g) d := by
  refine Undisturbed.bind ((undisturbed_verify hpos hlt ha hp).mono fun s d₁ hs => ?_)
  obtain ⟨hauth, hlog, h₁⟩ := hs
  refine .pass (by rw [hauth]; exact lt_irrefl g) (Undisturbed.bind (Task.Amid.act fun d₂ h₂ _ => ?_))
  have h₁₂ := h₁.trans h₂
  have hp₂ := hp.aside hlt h₁₂ ha.lt ha.ne
  refine ⟨engine, _, openAt_regular (by rw [hlog]; exact hp₂.log_at) hopen, fun d₃ h₃ => ?_⟩
  rw [hlog] at h₃
  obtain ⟨report', hp₃⟩ := hp₂.repaired ha.lt hopen
  have ha₃ := (ha.aside hpos hlt h₁₂).insert_log.aside hpos hlt h₃
  replace hp₃ := hp₃.aside hlt h₃ ha.lt ha.ne
  refine Undisturbed.bind ((undisturbed_verify hpos hlt ha₃ hp₃).mono fun s' d₄ hs' => ?_)
  obtain ⟨hauth', hlog', h₄⟩ := hs'
  refine .pass (by rw [hauth, hauth']; simp) (.pass (by rw [hlog, hlog']; simp) ?_)
  refine Task.Amid.pure fun d₅ h₅ => ⟨by rw [hauth], ha₃.aside hpos hlt (h₄.trans h₅), ?_⟩
  exact (hp₃.aside hlt (h₄.trans h₅) ha.lt ha.ne).log_at

end Copy

/-! ### The operations of a handle -/

theorem get_run (key : Bytes) (engine : LogEngine) : (LogEngine.get key engine).2 = engine := by
  rw [LogEngine.get]
  cases validateKey key with
  | error e => rfl
  | ok _ =>
    rw [Prog.ofExcept_ok_bind]
    by_cases hpoisoned : engine.poisoned = true
    · have hstopped : LogEngine.ensureUsable engine = (.error .poisoned, engine) := by
        rw [LogEngine.ensureUsable, Prog.reads, if_pos hpoisoned]
      rw [Prog.bind_error hstopped]
    · have husable : LogEngine.ensureUsable engine = (.ok (), engine) := by
        rw [LogEngine.ensureUsable, Prog.reads, if_neg hpoisoned]
      rw [Prog.bind_ok husable]
      rfl

/-- An operation on an engine that holds its file appends to it or leaves it as it is. -/
theorem request_holds {engine : LogEngine} {ms : List Mutation} (hholds : engine.Holds ms) (request : Request) :
    (∃ ms', (request.perform engine).2.Holds ms') ∧
      ∃ bytes, (request.perform engine).2.log.file = engine.log.file ++ bytes := by
  have hop : ∀ op : Op, (∃ ms', (LogEngine.perform op engine).2.Holds ms') ∧
      ∃ bytes, (LogEngine.perform op engine).2.log.file = engine.log.file ++ bytes := by
    intro op
    rcases hholds.perform op with ⟨previous, engine', hrun, hholds'⟩ | ⟨e, hrun⟩
    · rw [hrun]
      refine ⟨⟨_, hholds'⟩, recordFormat.recordsBytes [op.mutation engine.log.nextSequence], ?_⟩
      rw [hholds'.appended.file_eq, hholds.appended.file_eq, RecordFormat.recordsBytes_append, List.append_assoc]
    · rw [hrun]
      exact ⟨⟨ms, hholds⟩, [], (List.append_nil _).symm⟩
  cases request with
  | put key value => exact hop (.put key value)
  | delete key => exact hop (.delete key)
  | get key =>
    rw [Request.perform, get_run]
    exact ⟨⟨ms, hholds⟩, [], (List.append_nil _).symm⟩

/-- The directory has the highest marker `g`, and the handle can be routed to it: it has the log of `g` open,
or it will open it. -/
structure Routed (n : ℕ) (d : Directory) (g : ℕ) (h : GenerationLogEngine) (engine : LogEngine) : Prop where
  authority : Authority n d g
  usable : h.poisoned = false ∧ h.inner.poisoned = false
  le : h.authoritativeGeneration ≤ g
  current : h.authoritativeGeneration = g → h.path = canonicalGenerationName g ∧ h.inner = engine ∧
    d.find (canonicalGenerationName g) = some (.regular engine.log.file)
  behind : h.authoritativeGeneration < g → ∃ markerFile log marker report proved,
    Proven d g markerFile log marker report proved ∧ LogEngine.openFile (some log) = .ok engine
  holds : ∃ ms, engine.Holds ms

/-- The answers of an append log, and the log behind them. -/
def answers (engine : LogEngine) : List Request → List (Except DbError (Option Bytes)) × LogEngine
  | [] => ([], engine)
  | request :: requests =>
    ((request.perform engine).1 :: (answers (request.perform engine).2 requests).1,
      (answers (request.perform engine).2 requests).2)

section Operations

variable (hpos : 0 < n) (hlt : n < u64Limit) {h : GenerationLogEngine} {engine : LogEngine}

include hpos hlt

theorem Routed.aside (hr : Routed n d g h engine) (ha : Aside n d d₁) : Routed n d₁ g h engine where
  authority := hr.authority.aside hpos hlt ha
  usable := hr.usable
  le := hr.le
  current := by
    intro heq
    obtain ⟨hpath, hinner, hfind⟩ := hr.current heq
    exact ⟨hpath, hinner, by rw [ha.log_eq hlt hr.authority.lt hr.authority.ne]; exact hfind⟩
  behind := by
    intro hbehind
    obtain ⟨markerFile, log, marker, report, proved, hp, hopen⟩ := hr.behind hbehind
    exact ⟨markerFile, log, marker, report, proved, hp.aside hlt ha hr.authority.lt hr.authority.ne, hopen⟩
  holds := hr.holds

/-- **The refresh** finds the authority. -/
theorem undisturbed_refresh (hr : Routed n d g h engine) :
    Undisturbed n (fun x d' => x.1 = .ok () ∧ x.2.authoritativeGeneration = g ∧ Routed n d' g x.2 engine)
      h.refreshAuthority d := by
  unfold GenerationLogEngine.refreshAuthority
  rw [if_neg (by simp [hr.usable.1])]
  refine Undisturbed.bind (Task.Amid.attempt (Task.Amid.act fun d₁ h₁ hmay => ?_))
  obtain ⟨ns, hns⟩ := (hr.authority.aside hpos hlt h₁).closed.scan hlt hpos (hmay rfl)
  refine ⟨ns, d₁, by rw [hns], fun d₂ h₂ => ?_⟩
  have hr₂ := hr.aside hpos hlt (h₁.trans h₂)
  have hmax := (hr.authority.aside hpos hlt h₁).max hns
  simp only [hmax]
  rw [if_neg (not_lt.2 hr.le)]
  by_cases hcurrent : g = h.authoritativeGeneration
  · rw [if_pos hcurrent]
    exact Task.Amid.pure fun d₃ h₃ => ⟨rfl, hcurrent.symm, hr₂.aside hpos hlt h₃⟩
  · rw [if_neg hcurrent]
    obtain ⟨markerFile, log, marker, report, proved, hp, hopen⟩ := hr₂.behind (lt_of_le_of_ne hr.le (Ne.symm hcurrent))
    refine Undisturbed.bind (Task.Amid.attempt
      ((undisturbed_resolve hpos hlt hr₂.authority hp hopen).mono fun r d₃ hs => ?_))
    obtain ⟨rfl, ha₃, hfind⟩ := hs
    refine Task.Amid.pure fun d₄ h₄ => ⟨rfl, rfl, ?_⟩
    obtain ⟨ms, hholds⟩ := hr.holds
    exact
      { authority := ha₃.aside hpos hlt h₄
        usable := ⟨hr.usable.1, hholds.usable⟩
        le := le_rfl
        current := fun _ => ⟨rfl, rfl, by rw [h₄.log_eq hlt ha₃.lt ha₃.ne]; exact hfind⟩
        behind := fun hbehind => absurd hbehind (lt_irrefl g)
        holds := hr.holds }

/-- **One operation** answers as the append log alone would. -/
theorem undisturbed_operate (hr : Routed n d g h engine) (request : Request) :
    Undisturbed n (fun x d' => x.1 = (request.perform engine).1.mapError .database ∧
      Routed n d' g x.2 (request.perform engine).2) (h.operate request) d := by
  unfold GenerationLogEngine.operate
  refine Undisturbed.bind (Task.Amid.attempt (Task.Amid.act fun d₁ h₁ _ => ⟨(), d₁, rfl, fun d₂ h₂ => ?_⟩))
  refine Undisturbed.bind ((undisturbed_refresh hpos hlt (hr.aside hpos hlt (h₁.trans h₂))).mono fun x d₃ hx => ?_)
  obtain ⟨result, h'⟩ := x
  obtain ⟨hok, hgen, hr₃⟩ := hx
  dsimp only at hok hgen hr₃
  subst hok
  obtain ⟨ms, hholds⟩ := hr.holds
  obtain ⟨hholds', bytes, hbytes⟩ := request_holds hholds request
  refine Undisturbed.bind (Task.Amid.act fun d₄ h₄ _ => ?_)
  have hr₄ := hr₃.aside hpos hlt h₄
  obtain ⟨hpath, hinner, hfind⟩ := hr₄.current hgen
  have hengine : engineAt d₄ h'.path h'.inner = engine := by
    rw [engineAt, hpath, hfind, hinner]
  have hdrop : (request.perform engine).2.log.file.drop engine.log.file.length = bytes := by
    rw [hbytes, List.drop_left]
  refine ⟨((request.perform engine).1.mapError .database, (request.perform engine).2),
    d₄.insert (canonicalGenerationName g) (.regular (request.perform engine).2.log.file), ?_, fun d₅ h₅ => ?_⟩
  · unfold requestAt
    simp only [hengine, hdrop]
    rw [hpath, appendTo, hfind, hbytes]
  · have ha₅ := hr₄.authority.insert_log.aside hpos hlt h₅
    refine Task.Amid.pure fun d₆ h₆ => ⟨rfl, ?_⟩
    exact
      { authority := ha₅.aside hpos hlt h₆
        usable := ⟨hr₄.usable.1, hholds'.choose_spec.usable⟩
        le := hr₄.le
        current := fun _ => ⟨hpath, rfl, by
          rw [(h₅.trans h₆).log_eq hlt ha₅.lt ha₅.ne, Directory.find_insert, if_pos rfl]⟩
        behind := fun hbehind => absurd hgen hbehind.ne
        holds := hholds' }

/-- **A run of operations.** -/
theorem undisturbed_operateAll (hr : Routed n d g h engine) (requests : List Request) :
    Undisturbed n (fun x d' => x.1 = (answers engine requests).1.map (Except.mapError .database) ∧
      Routed n d' g x.2 (answers engine requests).2) (h.operateAll requests) d := by
  induction requests generalizing d h engine with
  | nil => exact Task.Amid.pure fun d₁ h₁ => ⟨rfl, hr.aside hpos hlt h₁⟩
  | cons request requests ih =>
    refine Undisturbed.bind ((undisturbed_operate hpos hlt hr request).mono fun x d₁ hx => ?_)
    obtain ⟨hresult, hr₁⟩ := hx
    refine Undisturbed.bind ((ih hr₁).mono fun y d₂ hy => ?_)
    obtain ⟨hresults, hr₂⟩ := hy
    refine Task.Amid.pure fun d₃ h₃ => ⟨?_, hr₂.aside hpos hlt h₃⟩
    rw [hresult, hresults]
    rfl

end Operations

/-- The handle works in the directory: it is routed to the highest marker and has its log open, or it is behind
the directory, which then verifies, and will open the log. The engine is the one that answers. -/
structure Healthy (d : Directory) (h : GenerationLogEngine) (engine : LogEngine) : Prop where
  usable : h.poisoned = false ∧ h.inner.poisoned = false
  routed : ∃ ns highest, scanGenerationNamespace d = .ok ns ∧ ns.markerFiles.max = some highest ∧
    h.authoritativeGeneration ≤ highest ∧
    (h.authoritativeGeneration = highest → h.path = canonicalGenerationName highest ∧ h.inner = engine ∧
      d.find h.path = some (.regular engine.log.file) ∧ ∃ ms, engine.Holds ms) ∧
    (h.authoritativeGeneration < highest → ∃ s log, verifyGenerationDirectory.run d = (.ok s, d) ∧
      d.find s.authoritativeLog = some (.regular log) ∧ LogEngine.openFile (some log) = .ok engine)

theorem Healthy.exists_routed {h : GenerationLogEngine} {engine : LogEngine} (hh : Healthy d h engine)
    (hunmarked : ¬ d.Has (canonicalMarkerName n)) : ∃ g, Routed n d g h engine := by
  obtain ⟨ns, g, hscan, hmax, hle, hcurrent, hbehind⟩ := hh.routed
  have hmem : ∀ id, id ∈ ns.markerFiles ↔ d.Has (canonicalMarkerName id) ∧ 0 < id ∧ id < u64Limit :=
    fun id => mem_files_of_scan (k := .commit) hscan
  obtain ⟨hmarked, hpos, hlt⟩ := (hmem g).1 (Finset.mem_of_max hmax)
  -- Without a marker for the candidate, the authority is another generation, the highest marked one.
  have hclosed : Closed n d := fun name entry hfind => .inl ((scan_isOk.1 ⟨ns, hscan⟩).2 name entry hfind)
  have hauthority : Authority n d g :=
    { closed := hclosed
      pos := hpos
      lt := hlt
      ne := fun heq => hunmarked (heq ▸ hmarked)
      marked := hmarked
      highest := by
        intro id hid hidlt hhas
        have hid_le := Finset.le_max ((hmem id).2 ⟨hhas, hid, hidlt⟩)
        rw [hmax] at hid_le
        exact WithBot.coe_le_coe.1 hid_le }
  refine ⟨g, hauthority, hh.usable, hle, fun heq => ?_, fun hlt => ?_, ?_⟩
  · obtain ⟨hpath, hinner, hfind, -⟩ := hcurrent heq
    exact ⟨hpath, hinner, hpath ▸ hfind⟩
  · obtain ⟨s, log, hrun, hlog, hopen⟩ := hbehind hlt
    obtain ⟨-, ns', markerFile, log', marker, hv⟩ :=
      (@runs_verifyGenerationDirectory (fun io => io = .success) rfl _ _ s).1 (Task.run_eq_iff.1 hrun)
    obtain rfl : ns' = ns := Except.ok.inj (hv.scanned.symm.trans hscan)
    have hauth : s.authoritativeGeneration = g := Option.some.inj (hv.authority.symm.trans hmax)
    have hsame := hv.log_at
    rw [← hv.authoritativeLog, hlog, Option.some.injEq, Entry.regular.injEq] at hsame
    subst hsame
    refine ⟨markerFile, log, marker, s.logVerification, s.committedPrefixVerification, ?_, hopen⟩
    exact
      { markerFile_at := hauth ▸ hv.markerFile_at
        marker_ok := hauth ▸ hv.marker_ok
        logFormat := hv.logFormat
        log_at := hauth ▸ hv.log_at
        log_ok := hv.log_ok
        format_eq := hv.format_eq
        prefix_ok := hv.prefix_ok
        bound := hv.bound }
  · rcases hle.eq_or_lt with heq | hlt
    · exact (hcurrent heq).2.2.2
    · obtain ⟨s, log, -, -, hopen⟩ := hbehind hlt
      exact LogEngine.holds_of_openFile hopen

/-- **The operations of a handle between the steps of a compact copy**: when no scan meets the staging name of
the copy or too many entries, every operation answers as the append log alone would, and the handle is not
poisoned. -/
theorem available_during_copy {h : GenerationLogEngine} {engine : LogEngine} {source : Name}
    {requests : List Request} {r : Except GenerationError (List (Except GenerationError (Option Bytes)) × GenerationLogEngine)}
    {rest : DirTask LogCompactionReport} (hhealthy : Healthy d h engine) (hpos : 0 < n) (hlt : n < u64Limit)
    (hunmarked : ¬ d.Has (canonicalMarkerName n))
    (hrun : Task.Interleaved (ScansAdmissible n) (h.operateAll requests)
      (compactLogToFreshFile source (canonicalGenerationName n)) d r rest d') :
    ∃ h', r = .ok ((answers engine requests).1.map (Except.mapError .database), h') ∧
      h'.poisoned = false ∧ h'.inner.poisoned = false := by
  obtain ⟨g, hr⟩ := hhealthy.exists_routed hunmarked
  obtain ⟨⟨results, h'⟩, hok, hresults, hr'⟩ := (undisturbed_operateAll hpos hlt hr requests).of_interleaved
    (Aside.refl n) Aside.trans hrun (sideways_compactLogToFreshFile hlt)
  dsimp only at hresults hr'
  rw [hresults] at hok
  exact ⟨h', hok, hr'.usable⟩

/-- The directory with one generation and the reservation of the next one. -/
def reservedSecond : Directory := oneGeneration.insert (canonicalReservationName 2) (.regular [])

def emptyLog : LogEngine := ⟨⟨encodeFileHeader, 1, 0, 16, encodeFileHeader⟩, [], none, false⟩

def firstHandle : GenerationLogEngine := ⟨1, canonicalGenerationName 1, emptyLog, false⟩

def copySecond : DirTask LogCompactionReport :=
  compactLogToFreshFile (canonicalGenerationName 1) (canonicalGenerationName 2)

theorem healthy_firstHandle : Healthy reservedSecond firstHandle emptyLog := by
  have hmax : (scanGenerationNamespace reservedSecond).map (fun ns => ns.markerFiles.max) = .ok (some 1) := by
    decide +kernel
  have hcreate : LogEngine.createNew = .ok emptyLog := by decide +kernel
  obtain ⟨engine, hcreate', hholds⟩ := LogEngine.exists_createNew
  obtain rfl : emptyLog = engine := Except.ok.inj (hcreate.symm.trans hcreate')
  cases hscan : scanGenerationNamespace reservedSecond with
  | error e =>
    rw [hscan] at hmax
    cases hmax
  | ok ns =>
    rw [hscan] at hmax
    refine ⟨⟨rfl, rfl⟩, ns, 1, hscan, Except.ok.inj hmax, le_rfl, fun _ => ⟨rfl, rfl, ?_, [], hholds⟩, fun hlt => ?_⟩
    · decide +kernel
    · exact absurd hlt (lt_irrefl 1)

/-- A put and a get behind the copy. -/
theorem available_behind_copy : ∃ r rest d' h',
    Task.Interleaved (ScansAdmissible 2) (firstHandle.operateAll [.put [97] [1], .get [97]])
      (compactLogToFreshFile (canonicalGenerationName 1) (canonicalGenerationName 2)) reservedSecond r rest d' ∧
    r = .ok ((answers emptyLog [.put [97] [1], .get [97]]).1.map (Except.mapError .database), h') ∧
    h'.poisoned = false := by
  have hmay : ∀ β act d, decide (Admissible 2 d) = true → ScansAdmissible 2 β act d :=
    fun β act d hd _ => of_decide_eq_true hd
  have hall : Task.allStates (fun d => decide (Admissible 2 d))
      (firstHandle.operateAll [.put [97] [1], .get [97]]) (Task.stateAfter 13 copySecond reservedSecond) = true := by
    decide +kernel
  have hrun := Task.interleaved_after 13
    (Task.interleaved_alone hmay hall (Task.taskAfter 13 copySecond reservedSecond))
  obtain ⟨h', hok, husable, -⟩ := available_during_copy healthy_firstHandle (by decide)
    (by rw [u64Limit_eq]; decide) (by decide +kernel) hrun
  exact ⟨_, _, _, h', hrun, hok, husable⟩

/-- A get right behind the creation of the staging file poisons the handle. -/
theorem copy_poisons : ∃ d h engine r rest d', Healthy d h engine ∧ ¬ d.Has (canonicalMarkerName 2) ∧
    Task.Interleaved (fun _ _ _ => True) (h.operateAll [.get [97]])
      (compactLogToFreshFile (canonicalGenerationName 1) (canonicalGenerationName 2)) d r rest d' ∧
    ∀ results h', r = .ok (results, h') → h'.poisoned = true ∧
      results ≠ (answers engine [.get [97]]).1.map (Except.mapError .database) := by
  have hmay : ∀ (β : Type) (act : Io → Directory → β × Directory) (d : Directory), true = true → True :=
    fun _ _ _ _ => trivial
  have hall : Task.allStates (fun _ => true) (firstHandle.operateAll [.get [97]])
      (Task.stateAfter 6 copySecond reservedSecond) = true := by decide +kernel
  have hrun := Task.interleaved_after 6
    (Task.interleaved_alone hmay hall (Task.taskAfter 6 copySecond reservedSecond))
  refine ⟨_, _, _, _, _, _, healthy_firstHandle, by decide +kernel, hrun, fun results h' hr => ?_⟩
  have hpoisoned : ((firstHandle.operateAll [.get [97]]).run (Task.stateAfter 6 copySecond reservedSecond)).1.map
      (fun x => (x.2.poisoned, decide (x.1 = (answers emptyLog [.get [97]]).1.map (Except.mapError .database)))) =
        .ok (true, false) := by decide +kernel
  rw [hr] at hpoisoned
  obtain ⟨htrue, hfalse⟩ := Prod.mk.inj (Except.ok.inj hpoisoned)
  exact ⟨htrue, of_decide_eq_false hfalse⟩

end DbLab.Generation
