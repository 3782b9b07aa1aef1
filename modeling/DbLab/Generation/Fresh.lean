import DbLab.Generation.Frontier

/-!
# Fresh generation ids

Every operation on a generation directory keeps `Grows`, whatever the other operations do between
its steps and wherever it stops. From this the run lemma of the tasks gives the statement about whole
runs: the frontier never decreases, and every reservation returns an id of its own, above all ids
that were there before it began.
-/

namespace DbLab.Generation

variable {α β : Type} {i n m : ℕ} {x y z : Marked}

/-- All steps of the task keep `Grows`, and a result of the task satisfies `P`. -/
def Keeps (i : ℕ) (t : DirTask α) (x : Marked) (P : α → Marked → Prop) : Prop :=
  Task.Safe Grows (marking i) (fun r y => ∀ a, r = .ok a → P a y) t x

namespace Keeps

variable {P P' : α → Marked → Prop} {t : DirTask α}

theorem mono (h : Keeps i t x P) (hP : ∀ a y, P a y → P' a y) : Keeps i t x P' :=
  Task.Safe.mono h fun _ y hr a ha => hP a y (hr a ha)

theorem bind {P : β → Marked → Prop} {f : α → DirTask β}
    (h : Keeps i t x fun a y => Keeps i (f a) y P) : Keeps i (t >>= f) x P := by
  refine Task.Safe.bind Grows.refl (Task.Safe.mono h ?_)
  rintro (e | a) y hr
  · exact fun a ha => nomatch ha
  · exact hr a rfl

theorem done {r : Except GenerationError α} (h : ∀ a, r = .ok a → ∀ y, Grows x y → P a y) :
    Keeps i (Task.done r) x P :=
  fun y hy a ha => h a ha y hy

theorem pure {a : α} (h : ∀ y, Grows x y → P a y) : Keeps i (pure a) x P :=
  done fun a' ha => by
    cases ha
    exact h

theorem error {e : GenerationError} : Keeps i (Task.done (.error e) : DirTask α) x P :=
  done fun _ ha => nomatch ha

theorem ofExcept {r : Except GenerationError α} (h : ∀ a, r = .ok a → ∀ y, Grows x y → P a y) :
    Keeps i (Task.ofExcept r) x P :=
  done h

theorem rejectWhen {p : Prop} [Decidable p] {e : GenerationError} {P : Unit → Marked → Prop}
    (h : ¬ p → ∀ y, Grows x y → P () y) : Keeps i (rejectWhen p e) x P := by
  refine ofExcept fun a ha y hy => ?_
  split at ha
  · cases ha
  · exact h ‹_› y hy

theorem mapError {f : GenerationError → GenerationError} (h : Keeps i t x P) :
    Keeps i (t.mapError f) x P := by
  refine Task.Safe.mapError (Task.Safe.mono h ?_)
  rintro (e | a) y hr a' ha
  · cases ha
  · exact hr a' ha

theorem attempt (h : Keeps i t x P) :
    Keeps i t.attempt x fun r y => (∀ a, r = .ok a → P a y) ∧ Grows x y := by
  refine Task.Safe.attempt (Task.Safe.mono (Task.Safe.track Grows.trans h) ?_)
  intro r y hr a ha
  cases ha
  exact hr

/-- A single step: what it does to the directory, and what is known behind it. -/
theorem act {a : Io → Directory → Except GenerationError α × Directory}
    (hkeep : ∀ io y, Grows x y → Grows y ((a io y.1).2, marking i y.1 (a io y.1).2 y.2))
    (hP : ∀ io y, Grows x y → ∀ b, (a io y.1).1 = .ok b →
      ∀ z, Grows ((a io y.1).2, marking i y.1 (a io y.1).2 y.2) z → P b z) :
    Keeps i (Task.act a) x P :=
  fun y hy io => ⟨hkeep io y hy, fun z hz b hb => hP io y hy b hb z hz⟩

theorem reading {f : Directory → Except GenerationError α}
    (h : ∀ y, Grows x y → ∀ a, f y.1 = .ok a → ∀ z, Grows y z → P a z) :
    Keeps i (reading f) x P := by
  have hsame : ∀ y : Marked, Grows y (y.1, marking i y.1 y.1 y.2) := fun y =>
    Grows.of_same_names fun _ => Iff.rfl
  refine act ?_ ?_
  · rintro (_ | _) y -
    · exact hsame y
    · exact hsame y
  · rintro (_ | _) y hy a ha z hz
    · exact h y hy a ha z ((hsame y).trans hz)
    · cases ha

/-- A step that only looks, when what it sees does not matter. -/
theorem looking {f : Directory → Except GenerationError α} :
    Keeps i (Generation.reading f) x fun _ y => Grows x y :=
  reading fun _ hy _ _ _ hz => hy.trans hz

theorem changing {f : Directory → Except GenerationError Directory} {P : Unit → Marked → Prop}
    (hkeep : ∀ y d', Grows x y → f y.1 = .ok d' → Grows y (d', marking i y.1 d' y.2))
    (hP : ∀ y d', Grows x y → f y.1 = .ok d' → ∀ z, Grows (d', marking i y.1 d' y.2) z → P () z) :
    Keeps i (changing f) x P := by
  have hsame : ∀ y : Marked, Grows y (y.1, marking i y.1 y.1 y.2) := fun y =>
    Grows.of_same_names fun _ => Iff.rfl
  refine act ?_ ?_
  · rintro (_ | _) y hy
    · cases hf : f y.1 with
      | error e => exact hsame y
      | ok d' => exact hkeep y d' hy hf
    · exact hsame y
  · rintro (_ | _) y hy b hb z hz
    · cases hf : f y.1 with
      | error e =>
        simp only [hf] at hb
        cases hb
      | ok d' =>
        simp only [hf] at hz
        exact hP y d' hy hf z hz
    · cases hb

theorem seq {P' : β → Marked → Prop} {f : α → DirTask β} (h : Keeps i t x P)
    (hf : ∀ a y, P a y → Keeps i (f a) y P') : Keeps i (t >>= f) x P' :=
  bind (h.mono hf)

theorem sync : Keeps i sync x fun _ y => Grows x y := looking

theorem acquireLease : Keeps i acquireLease x fun _ y => Grows x y := by
  have hsame : ∀ y : Marked, Grows y (y.1, marking i y.1 y.1 y.2) := fun y =>
    Grows.of_same_names fun _ => Iff.rfl
  refine act ?_ ?_
  · rintro (_ | _) y -
    · exact hsame y
    · exact hsame y
  · rintro (_ | _) y hy a ha z hz
    · exact hy.trans ((hsame y).trans hz)
    · cases ha

/-- A file that was read was there. -/
theorem readRegular {label : String} {name : Name} :
    Keeps i (readRegular label name) x
      fun _ y => Grows x y ∧ ∃ z, Grows x z ∧ Grows z y ∧ z.1.Has name := by
  refine reading fun y hy a ha z hz => ⟨hy.trans hz, y, hy, hz, ?_⟩
  rw [Directory.Has]
  cases hfind : y.1.find name with
  | none =>
    simp only [hfind] at ha
    cases ha
  | some entry => rfl

theorem reads {label : String} {name : Name} :
    Keeps i (Generation.readRegular label name) x fun _ y => Grows x y :=
  readRegular.mono fun _ _ h => h.1

theorem checks {r : Except GenerationError α} : Keeps i (Task.ofExcept r) x fun _ y => Grows x y :=
  ofExcept fun _ _ _ hy => hy

theorem rejects {p : Prop} [Decidable p] {e : GenerationError} :
    Keeps i (Generation.rejectWhen p e) x fun _ y => Grows x y ∧ ¬ p :=
  rejectWhen fun hp _ hy => ⟨hy, hp⟩

end Keeps

/-- Between `x` and `y` the namespace was as `ns` says. -/
def ScannedIn (x y : Marked) (ns : GenerationNamespace) : Prop :=
  ∃ z, Grows x z ∧ Grows z y ∧ scanGenerationNamespace z.1 = .ok ns

theorem ScannedIn.trans {ns : GenerationNamespace} (h : ScannedIn x y ns) (hyz : Grows y z) :
    ScannedIn x z ns := by
  obtain ⟨w, hxw, hwy, hscan⟩ := h
  exact ⟨w, hxw, hwy.trans hyz, hscan⟩

theorem ScannedIn.grows {ns : GenerationNamespace} (h : ScannedIn x y ns) : Grows x y := by
  obtain ⟨w, hxw, hwy, -⟩ := h
  exact hxw.trans hwy

theorem ScannedIn.validId {ns : GenerationNamespace} (h : ScannedIn x y ns) {k : FileKind}
    (hn : n ∈ ns.files k) : ValidId n := by
  obtain ⟨w, -, -, hscan⟩ := h
  exact ((mem_files_of_scan hscan).1 hn).2

/-- What the scan has found keeps its id observed. -/
theorem ScannedIn.anchored {ns : GenerationNamespace} (h : ScannedIn x y ns) {k : FileKind}
    (hkind : k ≠ .stagingCommit) (hn : n ∈ ns.files k) : Anchored y.1 n := by
  obtain ⟨w, -, hwy, hscan⟩ := h
  obtain ⟨hhas, hvalid⟩ := (mem_files_of_scan hscan).1 hn
  exact hwy.anchored n ⟨k, n, hkind, le_rfl, hvalid, hhas⟩

theorem ScannedIn.reserved {ns : GenerationNamespace} (h : ScannedIn x y ns)
    (hn : n ∈ ns.reservationFiles) : Reserved y.1 n := by
  obtain ⟨w, -, hwy, hscan⟩ := h
  obtain ⟨hhas, hvalid⟩ := (mem_files_of_scan (k := .reservation) hscan).1 hn
  exact hwy.reserved n ⟨hvalid, hhas⟩

/-- The highest id of a scan bounds the ids there are. -/
theorem le_highest_of_scan {d : Directory} {ns : GenerationNamespace} {highest : ℕ}
    (hscan : scanGenerationNamespace d = .ok ns) (hhighest : ns.highestObservedGeneration = some highest)
    (hn : Observed d n) : n ≤ highest := by
  obtain ⟨kind, id, hle, hvalid, hhas⟩ := hn
  have hid := GenerationNamespace.le_highestObservedGeneration
    ((mem_files_of_scan hscan).2 ⟨hhas, hvalid⟩)
  rw [hhighest] at hid
  exact hle.trans (WithBot.coe_le_coe.1 hid)

/-- The highest id of a scan is there. -/
theorem observed_of_scan {d : Directory} {ns : GenerationNamespace} {highest : ℕ}
    (hscan : scanGenerationNamespace d = .ok ns)
    (hhighest : ns.highestObservedGeneration = some highest) : Observed d highest := by
  by_contra hnone
  have hle : ns.highestObservedGeneration ≤ WithBot.some (highest - 1) := by
    refine GenerationNamespace.highestObservedGeneration_le fun kind n hn => ?_
    obtain ⟨hhas, hvalid⟩ := (mem_files_of_scan hscan).1 hn
    have hlt : n ≤ highest - 1 := by
      by_contra hlt
      exact hnone ⟨kind, n, by omega, hvalid, hhas⟩
    exact WithBot.coe_le_coe.2 hlt
  rw [hhighest] at hle
  have hzero : highest = 0 := by
    have hlt : highest ≤ highest - 1 := WithBot.coe_le_coe.1 hle
    omega
  subst hzero
  have hmem := Finset.mem_of_max hhighest
  simp only [Finset.mem_union] at hmem
  have hpos : ∀ kind, 0 ∉ ns.files kind := fun kind h => by
    have := ((mem_files_of_scan hscan).1 h).2.1
    omega
  rcases hmem with ((h | h) | h) | h
  · exact hpos .generation h
  · exact hpos .commit h
  · exact hpos .stagingCommit h
  · exact hpos .reservation h

namespace Keeps

theorem scan : Keeps i scan x fun ns y => ScannedIn x y ns :=
  reading fun y hy _ hns _ hz => ⟨y, hy, hz, hns⟩

/-- What a verification has seen. -/
def Verified (x y : Marked) (summary : GenerationVerificationSummary) : Prop :=
  ∃ ns, ScannedIn x y ns ∧ ns.markerFiles.max = some summary.authoritativeGeneration ∧
    ns.highestObservedGeneration = some summary.highestObservedGeneration

theorem verifyGenerationDirectory :
    Keeps i verifyGenerationDirectory x fun summary y => Verified x y summary := by
  refine scan.seq fun ns y hns => ?_
  split
  · rename_i generation highest hmax hhighest
    refine reads.seq fun _ y₁ h₁ => checks.seq fun _ y₂ h₂ => rejects.seq fun _ y₃ h₃ =>
      rejects.seq fun _ y₄ h₄ => reads.seq fun _ y₅ h₅ => checks.seq fun _ y₆ h₆ =>
      rejects.seq fun _ y₇ h₇ => reads.seq fun _ y₈ h₈ => checks.seq fun _ y₉ h₉ =>
      checks.seq fun _ y₁₀ h₁₀ => pure fun z hz => ?_
    have hgrows := h₁.trans <| h₂.trans <| h₃.1.trans <| h₄.1.trans <| h₅.trans <| h₆.trans <|
      h₇.1.trans <| h₈.trans <| h₉.trans <| h₁₀.trans hz
    exact ⟨ns, hns.trans hgrows, hmax, hhighest⟩
  · exact error

section Changes

variable {name source target : Name}

theorem createNewFile
    (h : ∀ y, Grows x y → ¬ y.1.Has name → Grows y
      (y.1.insert name (.regular []), marking i y.1 (y.1.insert name (.regular [])) y.2)) :
    Keeps i (createNewFile name) x fun _ z => ∃ y, Grows x y ∧ ¬ y.1.Has name ∧
      Grows (y.1.insert name (.regular []), marking i y.1 (y.1.insert name (.regular [])) y.2) z := by
  refine changing ?_ ?_
  · intro y d' hy hf
    rw [Checked.guard_eq_ok] at hf
    obtain ⟨hfree, rfl⟩ := hf.imp_right Except.ok.inj
    exact h y hy hfree
  · intro y d' hy hf z hz
    rw [Checked.guard_eq_ok] at hf
    obtain ⟨hfree, rfl⟩ := hf.imp_right Except.ok.inj
    exact ⟨y, hy, hfree, hz⟩

theorem hardLink
    (h : ∀ y entry, Grows x y → Grows y
      (y.1.insert target entry, marking i y.1 (y.1.insert target entry) y.2)) :
    Keeps i (hardLink source target) x fun _ z => Grows x z := by
  refine changing ?_ ?_
  all_goals
    intro y d' hy hf
    cases hfind : y.1.find source with
    | none =>
      simp only [hfind] at hf
      cases hf
    | some entry =>
      simp only [hfind, Checked.guard_eq_ok] at hf
      obtain ⟨-, rfl⟩ := hf.imp_right Except.ok.inj
      first
        | exact h y entry hy
        | exact fun z hz => hy.trans ((h y entry hy).trans hz)

theorem removeFile
    (h : ∀ y, Grows x y → Grows y (y.1.remove name, marking i y.1 (y.1.remove name) y.2)) :
    Keeps i (removeFile name) x fun _ z => Grows x z := by
  refine changing ?_ ?_
  · intro y d' hy hf
    rw [Checked.guard_not_eq_ok] at hf
    obtain ⟨-, rfl⟩ := hf.imp_right Except.ok.inj
    exact h y hy
  · intro y d' hy hf z hz
    rw [Checked.guard_not_eq_ok] at hf
    obtain ⟨-, rfl⟩ := hf.imp_right Except.ok.inj
    exact hy.trans ((h y hy).trans hz)

theorem removeQuietly
    (h : ∀ y, Grows x y → Grows y (y.1.remove name, marking i y.1 (y.1.remove name) y.2)) :
    Keeps i (removeQuietly name) x fun _ z => Grows x z := by
  refine (attempt (removeFile h)).seq fun r y hr => ?_
  rcases r with e | _
  · cases e with
    | notFound => exact pure fun z hz => hr.2.trans hz
    | _ => exact pure fun z hz => hr.2.trans hz
  · exact pure fun z hz => hr.2.trans hz

theorem has_appendTo {d : Directory} {bytes : Bytes} {name' : Name} :
    (appendTo d name bytes).Has name' ↔ d.Has name' := by
  unfold appendTo
  split
  · rename_i hfind
    rw [Directory.has_insert, or_iff_right_of_imp]
    rintro rfl
    rw [Directory.Has, hfind]
    rfl
  · exact Iff.rfl

theorem grows_appendTo (y : Marked) (bytes : Bytes) :
    Grows y (appendTo y.1 name bytes, marking i y.1 (appendTo y.1 name bytes) y.2) :=
  Grows.of_same_names fun _ => has_appendTo

theorem writeAll {bytes : Bytes} : Keeps i (writeAll name bytes) x fun _ z => Grows x z := by
  refine act ?_ ?_
  · rintro (_ | written) y -
    · exact grows_appendTo y bytes
    · exact grows_appendTo y (bytes.take written)
  · rintro (_ | written) y hy b hb z hz
    · exact hy.trans ((grows_appendTo y bytes).trans hz)
    · cases hb

end Changes

/-- What a reservation by the agent `i` has returned. -/
structure Returned (i : ℕ) (x y : Marked) (n : ℕ) : Prop where
  reserved : Reserved y.1 n
  maker : y.2 n = some i
  above : ∀ m, Observed x.1 m → m < n

theorem Returned.trans (h : Returned i x y n) (hyz : Grows y z) : Returned i x z n :=
  ⟨hyz.reserved n h.reserved, (hyz.maker n h.reserved).trans h.maker, h.above⟩

theorem Verified.trans {summary : GenerationVerificationSummary} (h : Verified x y summary)
    (hyz : Grows y z) : Verified x z summary := by
  obtain ⟨ns, hns, hmax, hhighest⟩ := h
  exact ⟨ns, hns.trans hyz, hmax, hhighest⟩

theorem Verified.grows {summary : GenerationVerificationSummary} (h : Verified x y summary) :
    Grows x y := by
  obtain ⟨ns, hns, -⟩ := h
  exact hns.grows

theorem Verified.anchored {summary : GenerationVerificationSummary} (h : Verified x y summary) :
    Anchored y.1 summary.authoritativeGeneration := by
  obtain ⟨ns, hns, hmax, -⟩ := h
  exact hns.anchored (k := .commit) (by decide) (Finset.mem_of_max hmax)

/-- The creation of the reservation of the next id, when the scan has found the id before it to be
the highest. Nobody else can have gone beyond this id, since the reservation is not there. -/
theorem returned_of_created {w : Marked} {ns : GenerationNamespace} {highest : ℕ} (hxw : Grows x w)
    (hscan : scanGenerationNamespace w.1 = .ok ns)
    (hhighest : ns.highestObservedGeneration = some highest) (hlt : highest + 1 < u64Limit)
    (hwy : Grows w y) (hfree : ¬ y.1.Has (canonicalReservationName (highest + 1))) :
    Grows y (y.1.insert (canonicalReservationName (highest + 1)) (.regular []),
      marking i y.1 (y.1.insert (canonicalReservationName (highest + 1)) (.regular [])) y.2) ∧
    Returned i x (y.1.insert (canonicalReservationName (highest + 1)) (.regular []),
      marking i y.1 (y.1.insert (canonicalReservationName (highest + 1)) (.regular [])) y.2)
      (highest + 1) := by
  have hvalid : ValidId (highest + 1) := ⟨Nat.succ_pos _, hlt⟩
  have habsent : ¬ Reserved y.1 (highest + 1) := fun h => hfree h.2
  have hreserved : Reserved (y.1.insert (canonicalReservationName (highest + 1)) (.regular []))
      (highest + 1) := ⟨hvalid, Directory.has_insert.2 (.inl rfl)⟩
  refine ⟨Grows.insert fun kind id hid hname => ?_, hreserved, ?_, ?_⟩
  · obtain ⟨rfl, rfl⟩ := canonicalName_injective hid.2 hvalid.2 hname.symm
    refine .inr ⟨rfl, fun m hm _ => ?_⟩
    exact (hwy.observed _ (observed_of_scan hscan hhighest)).mono (Nat.lt_succ_iff.1 hm)
  · show marking i _ _ _ _ = _
    rw [marking, if_pos ⟨hreserved, habsent⟩]
  · intro m hm
    exact Nat.lt_succ_of_le (le_highest_of_scan hscan hhighest (hxw.observed m hm))

theorem reserveNextGeneration :
    Keeps i reserveNextGeneration x fun summary y => Returned i x y summary.generation := by
  refine acquireLease.seq fun _ y₁ h₁ => verifyGenerationDirectory.seq fun before y₂ h₂ =>
    (ofExcept (P := fun generation y => Grows y₂ y ∧ generation = before.highestObservedGeneration + 1 ∧
      generation < u64Limit) ?_).seq fun generation y₃ h₃ => ?_
  · intro generation hnext y hy
    rw [nextGenerationId, Checked.guard_not_eq_ok] at hnext
    obtain ⟨hlt, heq⟩ := hnext
    cases heq
    exact ⟨hy, rfl, hlt⟩
  obtain ⟨h₂₃, rfl, hlt⟩ := h₃
  obtain ⟨ns, ⟨w, h₁w, hw₂, hscan⟩, -, hhighest⟩ := h₂
  refine (createNewFile fun y hy hfree => (returned_of_created (h₁.trans h₁w) hscan hhighest hlt
    (hw₂.trans (h₂₃.trans hy)) hfree).1).seq fun _ z hz => ?_
  obtain ⟨y, hy, hfree, hz⟩ := hz
  have hreturned := ((returned_of_created (h₁.trans h₁w) hscan hhighest hlt
    (hw₂.trans (h₂₃.trans hy)) hfree).2).trans hz
  refine sync.seq fun _ z₁ hz₁ => sync.mapError.seq fun _ z₂ hz₂ =>
    verifyGenerationDirectory.seq fun _ z₃ hz₃ => rejects.seq fun _ z₄ hz₄ => pure fun z₅ hz₅ => ?_
  exact hreturned.trans (hz₁.trans (hz₂.trans (hz₃.grows.trans (hz₄.1.trans hz₅))))

theorem requireExactCleanGeneration {log : Name} {baseline : VerificationReport} {proof : CommittedPrefix} :
    Keeps i (requireExactCleanGeneration log baseline proof) x fun _ y => Grows x y := by
  refine reads.seq fun _ y₁ h₁ => checks.seq fun _ y₂ h₂ => reads.seq fun _ y₃ h₃ =>
    checks.seq fun _ y₄ h₄ => rejectWhen fun _ y hy => ?_
  exact h₁.trans (h₂.trans (h₃.trans (h₄.trans hy)))

theorem removeStaleStagingIfSafe (hid : ValidId n) (h : Anchored x.1 n) :
    Keeps i (removeStaleStagingIfSafe (canonicalStagingMarkerName n)) x fun _ y => Grows x y := by
  refine looking.seq fun found y hy => ?_
  split
  · refine (removeFile fun z hz => Grows.remove_staging hid ?_).mono fun _ _ hz => hy.trans hz
    exact hz.anchored n (hy.anchored n h)
  · exact pure fun z hz => hy.trans hz

theorem writeSyncedStaging {encoded : Bytes} (hid : ValidId n) (h : Observed x.1 n) :
    Keeps i (writeSyncedStaging (canonicalStagingMarkerName n) encoded) x fun _ y => Grows x y := by
  have hcreate : ∀ y : Marked, Grows x y → Grows y
      (y.1.insert (canonicalStagingMarkerName n) (.regular []),
        marking i y.1 (y.1.insert (canonicalStagingMarkerName n) (.regular [])) y.2) :=
    fun y hy => Grows.insert_observed hid (hy.observed n h)
  refine (createNewFile fun y hy _ => hcreate y hy).seq fun _ y₁ h₁ => writeAll.seq fun _ y₂ h₂ =>
    looking.mono fun _ y₃ h₃ => ?_
  obtain ⟨y, hy, -, hy₁⟩ := h₁
  exact hy.trans ((hcreate y hy).trans (hy₁.trans (h₂.trans h₃)))

theorem proveGeneration {log : Name} : Keeps i (proveGeneration log) x fun _ y => Grows x y := by
  refine reads.seq fun _ y₁ h₁ => checks.seq fun _ y₂ h₂ => reads.seq fun _ y₃ h₃ =>
    checks.seq fun _ y₄ h₄ => reads.seq fun _ y₅ h₅ => checks.seq fun _ y₆ h₆ =>
    rejects.seq fun _ y₇ h₇ => sync.seq fun _ y₈ h₈ => sync.seq fun _ y₉ h₉ =>
    requireExactCleanGeneration.seq fun _ y₁₀ h₁₀ => pure fun z hz => ?_
  exact h₁.trans <| h₂.trans <| h₃.trans <| h₄.trans <| h₅.trans <| h₆.trans <| h₇.1.trans <| h₈.trans <|
    h₉.trans <| h₁₀.trans hz

theorem linkMarker {log : Name} {baseline : VerificationReport} {proof : CommittedPrefix} (hid : ValidId n)
    (h : Anchored x.1 n) :
    Keeps i (linkMarker n log (canonicalMarkerName n) (canonicalStagingMarkerName n) baseline proof) x
      fun _ y => Grows x y := by
  refine checks.seq fun encoded y₁ h₁ =>
    (writeSyncedStaging hid (h₁.anchored n h).observed).seq fun _ y₂ h₂ =>
    requireExactCleanGeneration.seq fun _ y₃ h₃ => ?_
  have hgrows : Grows x y₃ := h₁.trans (h₂.trans h₃)
  refine (hardLink fun y _ hy => Grows.insert_observed hid
    ((hgrows.trans hy).anchored n h).observed).seq fun _ y₄ h₄ => sync.mapError.seq fun _ y₅ h₅ =>
    reads.seq fun _ y₆ h₆ => checks.seq fun _ y₇ h₇ => reads.seq fun _ y₈ h₈ =>
    checks.seq fun _ y₉ h₉ => pure fun z hz => ?_
  exact hgrows.trans <| h₄.trans <| h₅.trans <| h₆.trans <| h₇.trans <| h₈.trans <| h₉.trans hz

theorem publishGenerationMarker (hlt : n < u64Limit) :
    Keeps i (publishGenerationMarker n) x fun _ y => Grows x y := by
  refine rejects.seq fun _ y₁ h₁ => scan.seq fun _ y₂ h₂ => rejects.seq fun _ y₃ h₃ => ?_
  dsimp only
  refine readRegular.seq fun _ y₄ h₄ => ?_
  have hid : ValidId n := ⟨Nat.pos_of_ne_zero h₁.2, hlt⟩
  obtain ⟨h₃₄, w, -, hwy₄, hhas⟩ := h₄
  have hanchored : Anchored y₄.1 n :=
    hwy₄.anchored n ⟨.generation, n, by decide, le_rfl, hid, hhas⟩
  refine looking.seq fun _ y₅ h₅ => ?_
  refine (removeStaleStagingIfSafe hid (h₅.anchored n hanchored)).seq fun _ y₆ h₆ =>
    proveGeneration.seq fun proven y₇ h₇ => ?_
  have h₄₇ : Grows y₄ y₇ := h₅.trans (h₆.trans h₇)
  refine (linkMarker hid (h₄₇.anchored n hanchored)).seq fun _ y₈ h₈ => ?_
  refine (removeQuietly fun y hy => Grows.remove_staging hid
    ((h₄₇.trans (h₈.trans hy)).anchored n hanchored)).seq fun _ y₉ h₉ => pure fun z hz => ?_
  exact h₁.1.trans <| h₂.grows.trans <| h₃.1.trans <| h₃₄.trans <| h₄₇.trans <| h₈.trans <| h₉.trans hz

theorem requireSameAuthority {expected : AuthorityWitness} :
    Keeps i (requireSameAuthority expected) x fun _ y => Grows x y :=
  verifyGenerationDirectory.seq fun _ _ h₁ => rejects.seq fun _ _ h₂ => pure fun _ hz =>
    h₁.grows.trans (h₂.1.trans hz)

theorem requireAllRegular {kind : FileKind} {label : String} {ids : List ℕ} :
    Keeps i (requireAllRegular kind label ids) x fun _ y => Grows x y := by
  induction ids generalizing x with
  | nil => exact pure fun _ hz => hz
  | cons id ids ih => exact reads.seq fun _ y hy => ih.mono fun _ z hz => hy.trans hz

/-- A run of removals, each of which keeps what all operations keep. -/
theorem removeAll {kind : FileKind} {ids : List ℕ}
    (h : ∀ id ∈ ids, ∀ y, Grows x y → Grows y
      (y.1.remove (canonicalName kind id), marking i y.1 (y.1.remove (canonicalName kind id)) y.2)) :
    Keeps i (removeAll kind ids) x fun _ y => Grows x y := by
  induction ids generalizing x with
  | nil => exact pure fun _ hz => hz
  | cons id ids ih =>
    refine (removeFile (h id List.mem_cons_self)).seq fun _ y hy => ?_
    refine (ih fun id' hmem z hz => ?_).mono fun _ z hz => hy.trans hz
    exact h id' (List.mem_cons_of_mem _ hmem) z (hy.trans hz)

theorem syncUnless {p : Prop} [Decidable p] : Keeps i (syncUnless p) x fun _ y => Grows x y := by
  unfold Generation.syncUnless
  split
  · exact pure fun _ hz => hz
  · exact sync.mapError

theorem cleanupObsoleteGenerations :
    Keeps i cleanupObsoleteGenerations x fun _ y => Grows x y := by
  refine acquireLease.seq fun _ y₁ h₁ => verifyGenerationDirectory.seq fun before y₂ h₂ => ?_
  dsimp only
  refine scan.seq fun ns y₃ h₃ => ?_
  have hanchored := h₃.grows.anchored _ h₂.anchored
  refine requireAllRegular.seq fun _ y₄ h₄ => requireAllRegular.seq fun _ y₅ h₅ =>
    requireAllRegular.seq fun _ y₆ h₆ => requireSameAuthority.seq fun _ y₇ h₇ => ?_
  have h₃₇ := h₄.trans <| h₅.trans <| h₆.trans h₇
  refine (removeAll fun id hid y hy => ?_).seq fun _ y₈ h₈ => ?_
  · have hmem := Finset.mem_filter.1 ((Finset.mem_sort _).1 hid)
    exact Grows.remove_below (by decide) (h₃.validId (k := .commit) hmem.1) hmem.2
      ((h₃₇.trans hy).anchored _ hanchored)
  refine (removeAll fun id hid y hy => ?_).seq fun _ y₉ h₉ => ?_
  · have hmem := Finset.mem_filter.1 ((Finset.mem_sort _).1 hid)
    obtain ⟨kind, high, hstaging, hle, hvalid, hhas⟩ :=
      (h₃₇.trans (h₈.trans hy)).anchored _ hanchored
    exact Grows.remove_staging (h₃.validId (k := .stagingCommit) hmem.1)
      ⟨kind, high, hstaging, hmem.2.trans hle, hvalid, hhas⟩
  refine syncUnless.seq fun _ y₁₀ h₁₀ => requireSameAuthority.seq fun _ y₁₁ h₁₁ => ?_
  have h₃₁₁ := h₃₇.trans <| h₈.trans <| h₉.trans <| h₁₀.trans h₁₁
  refine (removeAll fun id hid y hy => ?_).seq fun _ y₁₂ h₁₂ => ?_
  · have hmem := Finset.mem_filter.1 ((Finset.mem_sort _).1 hid)
    exact Grows.remove_below (by decide) (h₃.validId (k := .generation) hmem.1) hmem.2
      ((h₃₁₁.trans hy).anchored _ hanchored)
  refine syncUnless.seq fun _ y₁₃ h₁₃ => requireSameAuthority.seq fun _ y₁₄ h₁₄ =>
    scan.seq fun _ y₁₅ h₁₅ => pure fun z hz => ?_
  exact h₁.trans <| h₂.grows.trans <| h₃.grows.trans <| h₃₁₁.trans <| h₁₂.trans <| h₁₃.trans <|
    h₁₄.trans <| h₁₅.grows.trans hz

theorem verifyExpectedAuthority {expected : ℕ} :
    Keeps i (verifyExpectedAuthority expected) x fun _ y => Grows x y :=
  verifyGenerationDirectory.seq fun _ _ h₁ => rejects.seq fun _ _ h₂ => pure fun _ hz =>
    h₁.grows.trans (h₂.1.trans hz)

/-- A valid candidate has a reservation. -/
theorem validateReservedOrphanCandidate {ns : GenerationNamespace} {authority : ℕ} (h : ScannedIn x y ns) :
    Keeps i (validateReservedOrphanCandidate ns authority n) y fun _ z => Grows y z ∧ Reserved z.1 n := by
  refine rejects.seq fun _ y₁ h₁ => rejects.seq fun _ y₂ h₂ => rejects.seq fun _ y₃ h₃ =>
    rejects.seq fun _ y₄ h₄ => rejects.seq fun _ y₅ h₅ => reads.seq fun _ y₆ h₆ => pure fun z hz => ?_
  have hgrows := h₁.1.trans <| h₂.1.trans <| h₃.1.trans <| h₄.1.trans <| h₅.1.trans <| h₆.trans hz
  exact ⟨hgrows, hgrows.reserved n (h.reserved (not_not.1 h₄.2))⟩

theorem requireFingerprint {expected : Fingerprint} :
    Keeps i (requireFingerprint n expected) x fun _ y => Grows x y :=
  reads.seq fun _ _ h₁ => rejects.mono fun _ _ h₂ => h₁.trans h₂.1

theorem requireStagingFingerprint {ns : GenerationNamespace} {expected : Option Fingerprint} :
    Keeps i (requireStagingFingerprint n ns expected) x fun _ y => Grows x y := by
  cases expected with
  | none => exact rejects.mono fun _ _ h => h.1
  | some expected =>
    exact rejects.seq fun _ _ h₁ => reads.seq fun _ _ h₂ => rejects.mono fun _ _ h₃ =>
      h₁.1.trans (h₂.trans h₃.1)

theorem removeAbandonedStaging {ns : GenerationNamespace} (h : Reserved x.1 n) :
    Keeps i (removeAbandonedStaging n ns) x fun _ y => Grows x y := by
  unfold Generation.removeAbandonedStaging
  split
  · refine (removeFile fun y hy => Grows.remove_reserved (by decide) (hy.reserved n h)).seq
      fun _ y₁ h₁ => sync.mapError.mono fun _ _ h₂ => h₁.trans h₂
  · exact pure fun _ hz => hz

theorem retireGenerationOrphan {authority : ℕ} {orphan : Fingerprint} {staging : Option Fingerprint}
    {confirmed : Bool} :
    Keeps i (retireGenerationOrphan n authority orphan staging confirmed) x fun _ y => Grows x y := by
  refine rejects.seq fun _ y₁ h₁ => acquireLease.seq fun _ y₂ h₂ =>
    verifyExpectedAuthority.seq fun before y₃ h₃ => scan.seq fun ns y₄ h₄ =>
    (validateReservedOrphanCandidate h₄).seq fun _ y₅ h₅ => requireFingerprint.seq fun _ y₆ h₆ =>
    requireStagingFingerprint.seq fun _ y₇ h₇ => reads.seq fun _ y₈ h₈ =>
    verifyExpectedAuthority.seq fun _ y₉ h₉ => scan.seq fun current y₁₀ h₁₀ =>
    (validateReservedOrphanCandidate h₁₀).seq fun _ y₁₁ h₁₁ => requireFingerprint.seq fun _ y₁₂ h₁₂ =>
    requireStagingFingerprint.seq fun _ y₁₃ h₁₃ => ?_
  have hgrows : Grows x y₁₃ := h₁.1.trans <| h₂.trans <| h₃.trans <| h₄.grows.trans <| h₅.1.trans <|
    h₆.trans <| h₇.trans <| h₈.trans <| h₉.trans <| h₁₀.grows.trans <| h₁₁.1.trans <| h₁₂.trans h₁₃
  have hreserved : Reserved y₁₃.1 n := (h₁₂.trans h₁₃).reserved n h₁₁.2
  refine (removeAbandonedStaging hreserved).seq fun _ y₁₄ h₁₄ =>
    verifyExpectedAuthority.seq fun _ y₁₅ h₁₅ => scan.seq fun _ y₁₆ h₁₆ =>
    (validateReservedOrphanCandidate h₁₆).seq fun _ y₁₇ h₁₇ => requireFingerprint.seq fun _ y₁₈ h₁₈ => ?_
  have hgrows' : Grows y₁₃ y₁₈ := h₁₄.trans <| h₁₅.trans <| h₁₆.grows.trans <| h₁₇.1.trans h₁₈
  refine (removeFile fun y hy => Grows.remove_reserved (by decide)
    ((hgrows'.trans hy).reserved n hreserved)).seq fun _ y₁₉ h₁₉ => ?_
  refine sync.mapError.seq fun _ y₂₀ h₂₀ => verifyExpectedAuthority.seq fun _ y₂₁ h₂₁ =>
    scan.seq fun _ y₂₂ h₂₂ => rejects.seq fun _ y₂₃ h₂₃ => rejects.seq fun _ y₂₄ h₂₄ =>
    rejects.seq fun _ y₂₅ h₂₅ => pure fun z hz => ?_
  exact hgrows.trans <| hgrows'.trans <| h₁₉.trans <| h₂₀.trans <| h₂₁.trans <| h₂₂.grows.trans <|
    h₂₃.1.trans <| h₂₄.1.trans <| h₂₅.1.trans hz

section Compaction

variable {name : Name}

theorem createLog (h : Foreign name) : Keeps i (createLog name) x fun _ y => Grows x y := by
  refine (createNewFile fun _ _ _ => Grows.insert_foreign h).seq fun _ y₁ h₁ =>
    writeAll.seq fun _ y₂ h₂ => sync.seq fun _ y₃ h₃ => checks.mono fun _ y₄ h₄ => ?_
  obtain ⟨y, hy, -, hy₁⟩ := h₁
  exact hy.trans <| (Grows.insert_foreign h).trans <| hy₁.trans <| h₂.trans <| h₃.trans h₄

theorem putRecord {engine : Log.LogEngine} {key value : Bytes} :
    Keeps i (putRecord name engine key value) x fun _ y => Grows x y := by
  have hstep : ∀ (io : Io) (y : Marked), Grows y ((putAt name engine key value io y.1).2,
      marking i y.1 (putAt name engine key value io y.1).2 y.2) := by
    intro io y
    rcases writeRecord_snd name (engineAt y.1 name engine).log.file.length io y.1
      (Log.LogEngine.put key value (engineAt y.1 name engine)) with h | ⟨bytes, h⟩
    · rw [putAt, h]
      exact Grows.of_same_names fun _ => Iff.rfl
    · rw [putAt, h]
      exact grows_appendTo y bytes
  exact act (fun io y _ => hstep io y) fun io y hy _ _ z hz => hy.trans ((hstep io y).trans hz)

theorem putEntries {engine : Log.LogEngine} {entries : Log.Values} :
    Keeps i (putEntries name engine entries) x fun _ y => Grows x y := by
  induction entries generalizing x engine with
  | nil => exact pure fun _ hz => hz
  | cons entry entries ih => exact putRecord.seq fun _ y hy => ih.mono fun _ _ hz => hy.trans hz

/-- The names that an error path removes. -/
theorem removeAllQuietly {names : List Name}
    (h : ∀ name ∈ names, ∀ y, Grows x y →
      Grows y (y.1.remove name, marking i y.1 (y.1.remove name) y.2)) :
    Keeps i (removeAllQuietly names) x fun _ y => Grows x y := by
  induction names generalizing x with
  | nil => exact pure fun _ hz => hz
  | cons name names ih =>
    refine (removeQuietly (h name List.mem_cons_self)).seq fun _ y hy => ?_
    refine (ih fun name' hmem z hz => ?_).mono fun _ _ hz => hy.trans hz
    exact h name' (List.mem_cons_of_mem _ hmem) z (hy.trans hz)

theorem discarding {names : List Name} {r : Except GenerationError α}
    (h : ∀ name ∈ names, ∀ y, Grows x y →
      Grows y (y.1.remove name, marking i y.1 (y.1.remove name) y.2)) :
    Keeps i (discarding names r) x fun _ y => Grows x y := by
  cases r with
  | ok a => exact pure fun _ hz => hz
  | error e => exact (removeAllQuietly h).seq fun _ _ _ => error

theorem buildStaging {source : InspectionReport} (h : Foreign name) :
    Keeps i (buildStaging name source) x fun _ y => Grows x y := by
  have hbuild : Keeps i (do
      let engine ← Generation.createLog name
      Generation.putEntries name engine source.entries) x fun _ y => Grows x y :=
    (createLog h).seq fun _ _ hy => putEntries.mono fun _ _ hz => hy.trans hz
  refine (attempt hbuild).seq fun r y₁ h₁ => (discarding ?_).mono fun _ _ hz => h₁.2.trans hz
  intro name' hmem y _
  rw [List.mem_singleton] at hmem
  subst hmem
  exact Grows.remove_foreign h

theorem inspectAt : Keeps i (inspectAt name) x fun _ y => Grows x y :=
  reads.seq fun _ _ h₁ => checks.mono fun _ _ h₂ => h₁.trans h₂

theorem compactLogToFreshFile {source : Name} (hreserved : Reserved x.1 n) :
    Keeps i (compactLogToFreshFile source (canonicalGenerationName n)) x fun _ y => Grows x y := by
  have hforeign := foreign_compactingName (canonicalGenerationName n)
  have hstaging : ∀ y : Marked, ∀ name ∈ [compactingName (canonicalGenerationName n)], ∀ z, Grows y z →
      Grows z (z.1.remove name, marking i z.1 (z.1.remove name) z.2) := by
    intro y name hmem z _
    rw [List.mem_singleton] at hmem
    subst hmem
    exact Grows.remove_foreign hforeign
  have hboth : ∀ y : Marked, Grows x y →
      ∀ name ∈ [canonicalGenerationName n, compactingName (canonicalGenerationName n)], ∀ z, Grows y z →
        Grows z (z.1.remove name, marking i z.1 (z.1.remove name) z.2) := by
    intro y hy name hmem z hz
    rcases List.mem_cons.1 hmem with rfl | hmem
    · exact Grows.remove_reserved (by decide) ((hy.trans hz).reserved n hreserved)
    · exact hstaging y name hmem z hz
  refine reads.seq fun _ y₁ h₁ => looking.seq fun _ y₂ h₂ => rejects.seq fun _ y₃ h₃ => ?_
  dsimp only
  refine rejects.seq fun _ y₄ h₄ => looking.seq fun _ y₅ h₅ => reads.seq fun _ y₆ h₆ =>
    checks.seq fun _ y₇ h₇ => rejects.seq fun _ y₈ h₈ => inspectAt.seq fun _ y₉ h₉ =>
    rejects.seq fun _ y₁₀ h₁₀ => (buildStaging hforeign).seq fun _ y₁₁ h₁₁ =>
    (attempt inspectAt).seq fun _ y₁₂ h₁₂ => (discarding (hstaging _)).seq fun _ y₁₃ h₁₃ =>
    (discarding (hstaging _)).seq fun _ y₁₄ h₁₄ => (attempt inspectAt).seq fun _ y₁₅ h₁₅ =>
    (discarding (hstaging _)).seq fun _ y₁₆ h₁₆ => (discarding (hstaging _)).seq fun _ y₁₇ h₁₇ => ?_
  have hgrows : Grows x y₁₇ := h₁.trans <| h₂.trans <| h₃.1.trans <| h₄.1.trans <| h₅.trans <|
    h₆.trans <| h₇.trans <| h₈.1.trans <| h₉.trans <| h₁₀.1.trans <| h₁₁.trans <| h₁₂.2.trans <|
    h₁₃.trans <| h₁₄.trans <| h₁₅.2.trans <| h₁₆.trans h₁₇
  refine (attempt (hardLink fun y _ hy => Grows.insert_observed hreserved.1
    ((hgrows.trans hy).reserved n hreserved).anchored.observed)).seq fun _ y₁₈ h₁₈ =>
    (discarding (hstaging _)).seq fun _ y₁₉ h₁₉ => (attempt inspectAt).seq fun _ y₂₀ h₂₀ => ?_
  have hgrows₂₀ : Grows x y₂₀ := hgrows.trans <| h₁₈.2.trans <| h₁₉.trans h₂₀.2
  refine (discarding (hboth _ hgrows₂₀)).seq fun _ y₂₁ h₂₁ =>
    (discarding (hboth _ (hgrows₂₀.trans h₂₁))).seq fun _ y₂₂ h₂₂ =>
    (discarding (hboth _ (hgrows₂₀.trans (h₂₁.trans h₂₂)))).seq fun _ y₂₃ h₂₃ =>
    (removeQuietly fun y _ => Grows.remove_foreign hforeign).seq fun _ y₂₄ h₂₄ => pure fun z hz => ?_
  exact hgrows₂₀.trans <| h₂₁.trans <| h₂₂.trans <| h₂₃.trans <| h₂₄.trans hz

theorem compactSwitchGenerationOffline :
    Keeps i compactSwitchGenerationOffline x fun summary y =>
      Returned i x y summary.reservation.generation := by
  refine reserveNextGeneration.seq fun reservation y₁ h₁ => verifyGenerationDirectory.seq fun _ y₂ h₂ =>
    rejects.seq fun _ y₃ h₃ => ?_
  dsimp only
  refine inspectAt.seq fun _ y₄ h₄ => ?_
  have h₁₄ : Grows y₁ y₄ := h₂.grows.trans (h₃.1.trans h₄)
  refine (compactLogToFreshFile (h₁₄.reserved _ h₁.reserved)).seq fun _ y₅ h₅ =>
    acquireLease.seq fun _ y₆ h₆ => verifyGenerationDirectory.seq fun _ y₇ h₇ =>
    inspectAt.seq fun _ y₈ h₈ => rejects.seq fun _ y₉ h₉ => inspectAt.seq fun _ y₁₀ h₁₀ =>
    checks.seq fun _ y₁₁ h₁₁ => (publishGenerationMarker h₁.reserved.1.2).seq fun _ y₁₂ h₁₂ =>
    verifyGenerationDirectory.seq fun _ y₁₃ h₁₃ => rejects.seq fun _ y₁₄ h₁₄ =>
    inspectAt.seq fun _ y₁₅ h₁₅ => rejects.seq fun _ y₁₆ h₁₆ => pure fun z hz => h₁.trans ?_
  exact ‹Grows y₁ y₄›.trans <| h₅.trans <| h₆.trans <| h₇.grows.trans <| h₈.trans <| h₉.1.trans <|
    h₁₀.trans <| h₁₁.trans <| h₁₂.trans <| h₁₃.grows.trans <| h₁₄.1.trans <| h₁₅.trans <|
    h₁₆.1.trans hz

end Compaction

end Keeps

/-- The operations that run on a directory. -/
inductive GenerationOp
  | reserve
  | compactSwitch
  | publish (generation : Fin u64Limit)
  | cleanup
  | retire (generation expectedAuthority : ℕ) (orphan : Fingerprint) (staging : Option Fingerprint)
    (confirmed : Bool)

/-- The operation, with the id of its reservation as its result. -/
def GenerationOp.task : GenerationOp → DirTask (Option ℕ)
  | reserve => do
    let summary ← reserveNextGeneration
    pure (some summary.generation)
  | compactSwitch => do
    let summary ← compactSwitchGenerationOffline
    pure (some summary.reservation.generation)
  | publish generation => do
    let _ ← publishGenerationMarker generation
    pure none
  | cleanup => do
    let _ ← cleanupObsoleteGenerations
    pure none
  | retire generation expectedAuthority orphan staging confirmed => do
    let _ ← retireGenerationOrphan generation expectedAuthority orphan staging confirmed
    pure none

/-- Every agent may run every operation. -/
def generationTasks (_ : ℕ) : Set (DirTask (Option ℕ)) := Set.range GenerationOp.task

theorem GenerationOp.keeps (op : GenerationOp) :
    Keeps i op.task x fun result y => ∀ n, result = some n → Keeps.Returned i x y n := by
  have hnone : ∀ {α : Type} {t : DirTask α}, Keeps i t x (fun _ y => Grows x y) →
      Keeps i (t >>= fun _ => pure none) x fun result y => ∀ n, result = some n → Keeps.Returned i x y n :=
    fun ht => ht.seq fun _ _ _ => Keeps.pure fun _ _ _ h => nomatch h
  cases op with
  | reserve =>
    refine Keeps.reserveNextGeneration.seq fun summary y hy => Keeps.pure fun z hz n hn => ?_
    cases hn
    exact hy.trans hz
  | compactSwitch =>
    refine Keeps.compactSwitchGenerationOffline.seq fun summary y hy => Keeps.pure fun z hz n hn => ?_
    cases hn
    exact hy.trans hz
  | publish generation => exact hnone (Keeps.publishGenerationMarker generation.2)
  | cleanup => exact hnone Keeps.cleanupObsoleteGenerations
  | retire => exact hnone Keeps.retireGenerationOrphan

/-- What is known of a result: the agent has made the reservation of the id. -/
def Owned (i : ℕ) (r : Except GenerationError (Option ℕ)) (y : Marked) : Prop :=
  ∀ n, r = .ok (some n) → Reserved y.1 n ∧ y.2 n = some i

theorem guarded_of_idle {w : World Directory GenerationError (Option ℕ)} (maker : ℕ → Option ℕ)
    (h : ∀ i, w.agents i = .idle) : World.Guarded Grows marking Owned generationTasks w maker := by
  intro i
  rw [h i]
  rintro _ ⟨op, rfl⟩ y -
  refine Task.Safe.mono op.keeps fun r z hr n hn => ?_
  have hreturned := hr _ hn n rfl
  exact ⟨hreturned.reserved, hreturned.maker⟩

/-- From any state of a run, the agents that have not begun yet will return ids above those that are
there now. -/
theorem guarded_above {w : World Directory GenerationError (Option ℕ)} {maker : ℕ → Option ℕ}
    (h : World.Guarded Grows marking Owned generationTasks w maker) :
    World.Guarded Grows marking
      (fun i r y => Owned i r y ∧ (w.agents i = .idle → ∀ n, r = .ok (some n) → ∀ m, Observed w.state m → m < n))
      generationTasks w maker := by
  intro i
  have hi := h i
  cases hphase : w.agents i with
  | idle =>
    rintro _ ⟨op, rfl⟩ y hy
    refine Task.Safe.mono op.keeps fun r z hr => ⟨fun n hn => ?_, fun _ n hn m hm => ?_⟩
    · have hreturned := hr _ hn n rfl
      exact ⟨hreturned.reserved, hreturned.maker⟩
    · exact (hr _ hn n rfl).above m (hy.observed m hm)
  | running t =>
    rw [hphase] at hi
    exact Task.Safe.mono hi fun r z hr => ⟨hr, fun hidle => nomatch hphase.symm.trans hidle⟩
  | finished r =>
    rw [hphase] at hi
    exact fun y hy => ⟨hi y hy, fun hidle => nomatch hphase.symm.trans hidle⟩
  | crashed => trivial

/-- **Generation ids are fresh.** In every run of the operations, with any interleaving, I/O errors and
crashes: the highest observed generation does not decrease; a reservation that begins in a later state
returns an id above all ids of the directory of that state; and no two reservations return the same
id. -/
theorem fresh_ids {w₀ w₁ w₂ : World Directory GenerationError (Option ℕ)}
    (h₀ : ∀ i, w₀.agents i = .idle) (h₁ : World.Steps generationTasks w₀ w₁)
    (h₂ : World.Steps generationTasks w₁ w₂) :
    (∀ ns₁ ns₂, scanGenerationNamespace w₁.state = .ok ns₁ → scanGenerationNamespace w₂.state = .ok ns₂ →
      ns₁.highestObservedGeneration ≤ ns₂.highestObservedGeneration) ∧
    (∀ i id kind n, w₁.agents i = .idle → w₂.agents i = .finished (.ok (some id)) →
      ValidId n → w₁.state.Has (canonicalName kind n) → n < id) ∧
    ∀ i j id, w₂.agents i = .finished (.ok (some id)) → w₂.agents j = .finished (.ok (some id)) →
      i = j := by
  obtain ⟨maker₁, -, hguard₁⟩ :=
    (guarded_of_idle (fun _ => none) h₀).steps Grows.refl Grows.trans h₁
  obtain ⟨maker₂, hgrows, hguard₂⟩ := (guarded_above hguard₁).steps Grows.refl Grows.trans h₂
  refine ⟨fun ns₁ ns₂ hscan₁ hscan₂ => ?_, fun i id kind n hidle hfinished hvalid hhas => ?_,
    fun i j id hi hj => ?_⟩
  · refine GenerationNamespace.highestObservedGeneration_le fun kind n hn => ?_
    obtain ⟨hhas, hvalid⟩ := (mem_files_of_scan hscan₁).1 hn
    obtain ⟨kind', id, hle, hvalid', hhas'⟩ := hgrows.observed n ⟨kind, n, le_rfl, hvalid, hhas⟩
    have hid := GenerationNamespace.le_highestObservedGeneration
      ((mem_files_of_scan hscan₂).2 ⟨hhas', hvalid'⟩)
    exact (WithBot.coe_le_coe.2 hle).trans hid
  · have hi := hguard₂ i
    rw [hfinished] at hi
    exact (hi _ (Grows.refl _)).2 hidle id rfl n ⟨kind, n, le_rfl, hvalid, hhas⟩
  · have hmaker_i := hguard₂ i
    have hmaker_j := hguard₂ j
    rw [hi] at hmaker_i
    rw [hj] at hmaker_j
    have hone := ((hmaker_i _ (Grows.refl _)).1 id rfl).2
    have htwo := ((hmaker_j _ (Grows.refl _)).1 id rfl).2
    exact Option.some.inj (hone.symm.trans htwo)

/-- A directory with one committed generation, whose log is empty. -/
def oneGeneration : Directory :=
  (Directory.empty.insert (canonicalGenerationName 1) (.regular Log.encodeFileHeader)).insert
    (canonicalMarkerName 1) (.regular (markerBytes 1 ⟨16, crc32 Log.encodeFileHeader, 0, 1⟩))

theorem reserve_twice :
    (GenerationOp.reserve.task.run oneGeneration).1 = .ok (some 2) ∧
      (GenerationOp.reserve.task.run (GenerationOp.reserve.task.run oneGeneration).2).1 = .ok (some 3) := by
  decide +kernel

/-- Two agents reserve, one behind the other: the id of the second is free when it starts. -/
theorem fresh_ids_two_reservations :
    ¬ (GenerationOp.reserve.task.run oneGeneration).2.Has (canonicalName .generation 3) := by
  intro hhas
  have hmem : GenerationOp.reserve.task ∈ Set.range GenerationOp.task := ⟨.reserve, rfl⟩
  have hfirst : World.Steps generationTasks ⟨oneGeneration, fun _ => .idle⟩ _ :=
    World.steps_run (i := 0) rfl hmem
  have hsecond : World.Steps generationTasks
      (World.setAgent ⟨(GenerationOp.reserve.task.run oneGeneration).2, fun _ => .idle⟩ 0
        (.finished (GenerationOp.reserve.task.run oneGeneration).1)) _ :=
    World.steps_run (i := 1) rfl hmem
  have hvalid : ValidId 3 := by
    unfold ValidId
    rw [u64Limit_eq]
    decide
  have hfresh := (fresh_ids (fun _ => rfl) hfirst hsecond).2.1 1 3 .generation 3 rfl
    (by rw [← reserve_twice.2]; rfl) hvalid hhas
  exact lt_irrefl 3 hfresh

end DbLab.Generation
