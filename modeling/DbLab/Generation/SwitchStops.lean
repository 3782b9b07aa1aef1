import DbLab.Generation.Fresh
import DbLab.Generation.Prefix

/-!
# Compact switches that die

A compact switch may die between any two of its steps, or in the middle of a write. Until its marker is
linked it has changed only names that no verification selects, the reservation, the candidate and their
staging names; from then on its own generation is the authority (`switch_stops`). The verification
accepts the directory either way, unless the staging name of the copy is still there or there are too
many entries.
-/

namespace DbLab.Generation

open Log

variable {α β : Type} {allowed : Io → Prop} {d d' d'' : Directory} {n : ℕ} {name : Name} {entry : Entry}

/-! ### Tasks that change nothing -/

/-- The task leaves the directory as it is. -/
abbrev Quiet (t : DirTask α) : Prop := Task.Steady (fun d d' => d' = d) t

theorem Quiet.same {t : DirTask α} (h : Quiet t) (hstop : Task.Stops allowed t d d') : d' = d :=
  @Task.Steady.stops _ _ _ d d' t (fun d d' => d' = d) allowed (fun _ => rfl)
    (fun _ _ _ hxy hyz => hyz.trans hxy) h hstop

theorem quiet_reading {f : Directory → Except GenerationError α} : Quiet (reading f) :=
  Task.Steady.act fun d io => by cases io <;> rfl

theorem quiet_done {r : Except GenerationError α} : Quiet (Task.done r : DirTask α) := trivial

theorem quiet_inspectAt : Quiet (inspectAt name) := quiet_reading.bind fun _ => quiet_done

theorem quiet_acquireLease : Quiet acquireLease := Task.Steady.act fun d io => by cases io <;> rfl

theorem quiet_verify : Quiet verifyGenerationDirectory := by
  refine quiet_reading.bind fun ns => ?_
  split
  · exact quiet_reading.bind fun _ => quiet_done.bind fun _ => quiet_done.bind fun _ => quiet_done.bind fun _ =>
      quiet_reading.bind fun _ => quiet_done.bind fun _ => quiet_done.bind fun _ => quiet_reading.bind fun _ =>
      quiet_done.bind fun _ => quiet_done.bind fun _ => quiet_done
  · exact quiet_done

theorem quiet_requireExactCleanGeneration {baseline : VerificationReport} {proof : CommittedPrefix} :
    Quiet (requireExactCleanGeneration name baseline proof) :=
  quiet_reading.bind fun _ => quiet_done.bind fun _ => quiet_reading.bind fun _ => quiet_done.bind fun _ =>
    quiet_done

theorem quiet_proveGeneration : Quiet (proveGeneration name) :=
  quiet_reading.bind fun _ => quiet_done.bind fun _ => quiet_reading.bind fun _ => quiet_done.bind fun _ =>
    quiet_reading.bind fun _ => quiet_done.bind fun _ => quiet_done.bind fun _ => quiet_reading.bind fun _ =>
    quiet_reading.bind fun _ => quiet_requireExactCleanGeneration.bind fun _ => quiet_done

/-! ### Changes at one name -/

theorem stops_changing {f : Directory → Except GenerationError Directory}
    (h : Task.Stops allowed (changing f) d d') : d' = d ∨ f d = .ok d' := by
  rcases Task.stops_act h with rfl | ⟨io, rfl⟩
  · exact .inl rfl
  · cases io with
    | failure written => exact .inl rfl
    | success =>
      cases f d with
      | ok next => exact .inr rfl
      | error e => exact .inl rfl

theorem steady_changing {R : Directory → Directory → Prop} (hrefl : ∀ d, R d d)
    {f : Directory → Except GenerationError Directory} (hf : ∀ d d', f d = .ok d' → R d d') :
    Task.Steady R (changing f) := by
  refine Task.Steady.act fun d io => ?_
  cases io with
  | failure written => exact hrefl d
  | success =>
    cases hd : f d with
    | ok next => exact hf d next hd
    | error e => exact hrefl d

/-- The relation holds across every change of the entry at the name. -/
structure Permits (R : Directory → Directory → Prop) (name : Name) : Prop where
  refl : ∀ d, R d d
  insert : ∀ d entry, R d (d.insert name entry)
  remove : ∀ d, R d (d.remove name)

namespace Permits

variable {R : Directory → Directory → Prop}

theorem appendTo (h : Permits R name) (d : Directory) (bytes : Bytes) : R d (appendTo d name bytes) := by
  unfold Generation.appendTo
  split
  · exact h.insert d _
  · exact h.refl d

theorem createNewFile (h : Permits R name) : Task.Steady R (createNewFile name) := by
  refine steady_changing h.refl fun d d' hd => ?_
  by_cases hhas : d.Has name
  · rw [if_pos hhas] at hd
    cases hd
  · rw [if_neg hhas] at hd
    cases hd
    exact h.insert d _

theorem hardLink (h : Permits R name) {source : Name} : Task.Steady R (hardLink source name) := by
  refine steady_changing h.refl fun d d' hd => ?_
  cases hfind : d.find source with
  | none =>
    rw [hfind] at hd
    cases hd
  | some entry =>
    rw [hfind] at hd
    by_cases hhas : d.Has name
    · dsimp only at hd
      rw [if_pos hhas] at hd
      cases hd
    · dsimp only at hd
      rw [if_neg hhas] at hd
      cases hd
      exact h.insert d entry

theorem removeFile (h : Permits R name) : Task.Steady R (removeFile name) := by
  refine steady_changing h.refl fun d d' hd => ?_
  by_cases hhas : d.Has name
  · rw [if_pos hhas] at hd
    cases hd
    exact h.remove d
  · rw [if_neg hhas] at hd
    cases hd

theorem writeAll (h : Permits R name) {bytes : Bytes} : Task.Steady R (writeAll name bytes) := by
  refine Task.Steady.act fun d io => ?_
  cases io <;> exact h.appendTo d _

end Permits

/-! ### The names of a candidate -/

/-- The names under which a compact switch to the generation `n` writes bytes before its marker. -/
def Written (n : ℕ) (name : Name) : Prop :=
  name = canonicalGenerationName n ∨ name = canonicalStagingMarkerName n ∨
    name = compactingName (canonicalGenerationName n)

/-- Only the reservation of `n` and the written names may differ, and a new reservation is empty. -/
structure Aside (n : ℕ) (d d' : Directory) : Prop where
  others : ∀ name, name ≠ canonicalReservationName n → ¬ Written n name → d'.find name = d.find name
  reservation : d'.find (canonicalReservationName n) = d.find (canonicalReservationName n) ∨
    d'.find (canonicalReservationName n) = some (.regular [])

theorem Aside.refl (n : ℕ) (d : Directory) : Aside n d d := ⟨fun _ _ _ => rfl, .inl rfl⟩

theorem Aside.trans ⦃d d' d'' : Directory⦄ (h : Aside n d d') (h' : Aside n d' d'') : Aside n d d'' where
  others := fun name h₁ h₂ => (h'.others name h₁ h₂).trans (h.others name h₁ h₂)
  reservation := by
    rcases h'.reservation with heq | hempty
    · rw [heq]
      exact h.reservation
    · exact .inr hempty

theorem Written.ne_reservation (hlt : n < u64Limit) (h : Written n name) : canonicalReservationName n ≠ name := by
  rcases h with rfl | rfl | rfl
  · exact names_ne (by decide) hlt
  · exact names_ne (by decide) hlt
  · exact fun heq => foreign_compactingName _ .reservation n heq.symm

theorem aside_permits (hlt : n < u64Limit) (h : Written n name) : Permits (Aside n) name where
  refl := Aside.refl n
  insert := by
    refine fun d entry => ⟨fun other _ hother => ?_, .inl ?_⟩
    · have hne : other ≠ name := fun heq => hother (heq ▸ h)
      rw [Directory.find_insert, if_neg hne]
    · rw [Directory.find_insert, if_neg (h.ne_reservation hlt)]
  remove := by
    refine fun d => ⟨fun other _ hother => ?_, .inl ?_⟩
    · have hne : other ≠ name := fun heq => hother (heq ▸ h)
      rw [Directory.find_remove, if_neg hne]
    · rw [Directory.find_remove, if_neg (h.ne_reservation hlt)]

theorem aside_reserve : Aside n d (d.insert (canonicalReservationName n) (.regular [])) := by
  refine ⟨fun other hother _ => ?_, .inr ?_⟩
  · rw [Directory.find_insert, if_neg hother]
  · rw [Directory.find_insert, if_pos rfl]

/-! ### The steps of a candidate -/

/-- The task changes only what may differ. -/
abbrev Sideways (n : ℕ) (t : DirTask α) : Prop := Task.Steady (Aside n) t

theorem Sideways.aside {t : DirTask α} (h : Sideways n t) (hstop : Task.Stops allowed t d d') : Aside n d d' :=
  Task.Steady.stops (Aside.refl n) Aside.trans h hstop

theorem Quiet.sideways {t : DirTask α} (h : Quiet t) : Sideways n t :=
  Task.Steady.mono h fun d d' heq => by
    rw [heq]
    exact .refl n d

theorem sideways_done {r : Except GenerationError α} : Sideways n (Task.done r : DirTask α) := trivial

section Written

variable (hlt : n < u64Limit) (h : Written n name)

include hlt h

theorem sideways_removeQuietly : Sideways n (removeQuietly name) := by
  refine Task.Steady.bind (Task.Steady.attempt (aside_permits hlt h).removeFile) fun r => ?_
  split <;> exact sideways_done

theorem sideways_putEntries {engine : LogEngine} {entries : Values} :
    Sideways n (putEntries name engine entries) := by
  induction entries generalizing engine with
  | nil => exact sideways_done
  | cons item entries ih =>
    refine Task.Steady.bind (Task.Steady.act fun d io => ?_) fun engine' => ih
    rcases writeRecord_snd name (engineAt d name engine).log.file.length io d
      (LogEngine.put item.1 item.2 (engineAt d name engine)) with hsame | ⟨bytes, happend⟩
    · rw [putAt, hsame]
      exact .refl n d
    · rw [putAt, happend]
      exact (aside_permits hlt h).appendTo d bytes

end Written

theorem sideways_removeAllQuietly (hlt : n < u64Limit) {names : List Name} (h : ∀ name ∈ names, Written n name) :
    Sideways n (removeAllQuietly names) := by
  induction names with
  | nil => exact sideways_done
  | cons name names ih =>
    exact (sideways_removeQuietly hlt (h name List.mem_cons_self)).bind fun _ =>
      ih fun other hother => h other (List.mem_cons_of_mem _ hother)

theorem sideways_discarding (hlt : n < u64Limit) {names : List Name} (h : ∀ name ∈ names, Written n name)
    {r : Except GenerationError α} : Sideways n (discarding names r) := by
  cases r with
  | ok a => exact sideways_done
  | error e => exact (sideways_removeAllQuietly hlt h).bind fun _ => sideways_done

/-- **The compact copy** changes nothing but the names of its candidate. -/
theorem sideways_compactLogToFreshFile (hlt : n < u64Limit) {source : Name} :
    Sideways n (compactLogToFreshFile source (canonicalGenerationName n)) := by
  have hcopy : Written n (compactingName (canonicalGenerationName n)) := .inr (.inr rfl)
  have houtput : Written n (canonicalGenerationName n) := .inl rfl
  have hstaging : ∀ name ∈ [compactingName (canonicalGenerationName n)], Written n name := by
    simpa using hcopy
  have hboth : ∀ name ∈ [canonicalGenerationName n, compactingName (canonicalGenerationName n)], Written n name := by
    simpa using And.intro houtput hcopy
  have hbuild : ∀ report, Sideways n (buildStaging (compactingName (canonicalGenerationName n)) report) := by
    intro report
    refine Task.Steady.bind (Task.Steady.attempt (Task.Steady.bind ?_ fun engine => sideways_putEntries hlt hcopy))
      fun r => sideways_discarding hlt hstaging
    exact (aside_permits hlt hcopy).createNewFile.bind fun _ => (aside_permits hlt hcopy).writeAll.bind fun _ =>
      quiet_reading.sideways.bind fun _ => sideways_done
  have hinspect : ∀ path, Sideways n (inspectAt path).attempt := fun _ =>
    Task.Steady.attempt quiet_inspectAt.sideways
  have hlink : Sideways n (hardLink (compactingName (canonicalGenerationName n))
      (canonicalGenerationName n)).attempt := Task.Steady.attempt (aside_permits hlt houtput).hardLink
  have hdrop : ∀ {β : Type} (r : Except GenerationError β),
      Sideways n (discarding [compactingName (canonicalGenerationName n)] r) := fun _ =>
    sideways_discarding hlt hstaging
  have hdropBoth : ∀ {β : Type} (r : Except GenerationError β), Sideways n
      (discarding [canonicalGenerationName n, compactingName (canonicalGenerationName n)] r) := fun _ =>
    sideways_discarding hlt hboth
  unfold compactLogToFreshFile
  refine quiet_reading.sideways.bind fun _ => quiet_reading.sideways.bind fun _ => sideways_done.bind fun _ => ?_
  refine sideways_done.bind fun _ => quiet_reading.sideways.bind fun _ => quiet_reading.sideways.bind fun _ =>
    sideways_done.bind fun _ => sideways_done.bind fun _ => quiet_inspectAt.sideways.bind fun _ =>
    sideways_done.bind fun _ => (hbuild _).bind fun _ => ?_
  refine (hinspect _).bind fun _ => (hdrop _).bind fun _ => (hdrop _).bind fun _ => (hinspect _).bind fun _ =>
    (hdrop _).bind fun _ => (hdrop _).bind fun _ => hlink.bind fun _ => (hdrop _).bind fun _ => ?_
  exact (hinspect _).bind fun _ => (hdropBoth _).bind fun _ => (hdropBoth _).bind fun _ =>
    (hdropBoth _).bind fun _ => (sideways_removeQuietly hlt hcopy).bind fun _ => sideways_done

/-! ### The publication -/

/-- The link of a marker: until it is there, only the staging name has changed. -/
theorem linkMarker_stops (hs : allowed .success) (hlt : n < u64Limit) {log : Name} {report : VerificationReport} {proof : CommittedPrefix}
    (hstop : Task.Stops allowed (linkMarker n log (canonicalMarkerName n) (canonicalStagingMarkerName n) report proof)
      d d') : Aside n d d' ∨ 0 < n ∧ proof.Valid ∧ d' = withMarker d n proof := by
  have hstaging : Written n (canonicalStagingMarkerName n) := .inr (.inl rfl)
  unfold linkMarker at hstop
  rcases Task.stops_bind hstop with h | ⟨encoded, d₁, hrun, hrest⟩
  · exact .inl (quiet_done.sideways.aside h)
  rw [runs_ofExcept, Checked.mapError_eq_ok, encodeCommitMarker_eq_ok] at hrun
  obtain ⟨⟨hpos, hvalid, rfl⟩, hd₁⟩ := hrun
  rw [hd₁] at hrest
  clear hstop
  have hwrite : Sideways n (writeSyncedStaging (canonicalStagingMarkerName n) (markerBytes n proof)) :=
    (aside_permits hlt hstaging).createNewFile.bind fun _ => (aside_permits hlt hstaging).writeAll.bind fun _ =>
      quiet_reading.sideways
  rcases Task.stops_bind hrest with h | ⟨_, d₂, hrun, hrest⟩
  · exact .inl (hwrite.aside h)
  have haside : Aside n d d₂ := hwrite.aside hrun.stops
  unfold writeSyncedStaging at hrun
  simp only [runs_bind, runs_createNewFile hs, runs_writeAll hs,
    runs_sync hs] at hrun
  obtain ⟨_, _, ⟨-, rfl⟩, _, _, rfl, rfl⟩ := hrun
  rw [appendTo_insert, List.nil_append] at hrest haside
  rcases Task.stops_bind hrest with h | ⟨_, d₃, hrun, hrest⟩
  · rw [quiet_requireExactCleanGeneration.same h]
    exact .inl haside
  rw [quiet_requireExactCleanGeneration.same hrun.stops] at hrest
  rcases Task.stops_bind hrest with h | ⟨_, d₄, hrun, hrest⟩
  · rcases stops_changing h with rfl | hlinked
    · exact .inl haside
    · rw [Directory.find_insert, if_pos rfl] at hlinked
      dsimp only at hlinked
      by_cases hhas : Directory.Has ((d.insert (canonicalStagingMarkerName n) (.regular [])).insert
          (canonicalStagingMarkerName n) (.regular (markerBytes n proof))) (canonicalMarkerName n)
      · rw [if_pos hhas] at hlinked
        cases hlinked
      · rw [if_neg hhas] at hlinked
        cases hlinked
        exact .inr ⟨hpos, hvalid, rfl⟩
  rw [runs_hardLink hs] at hrun
  obtain ⟨entry, hentry, -, hd₄⟩ := hrun
  rw [Directory.find_insert, if_pos rfl, Option.some.injEq] at hentry
  rw [hd₄, ← hentry] at hrest
  -- the marker is there; what follows only checks it
  have hchecks := Quiet.same (Task.Steady.bind (Task.Steady.mapError quiet_reading) (fun _ => quiet_reading.bind fun _ =>
    quiet_done.bind fun _ => quiet_reading.bind fun _ => quiet_done.bind fun _ => quiet_done)) hrest
  exact .inr ⟨hpos, hvalid, hchecks⟩

theorem removeQuietly_stops (h : Task.Stops allowed (removeQuietly name) d d') : d' = d ∨ d' = d.remove name := by
  rcases Task.stops_bind h with h | ⟨r, d₁, hrun, hstop⟩
  · rcases stops_changing (Task.stops_attempt h) with rfl | hremoved
    · exact .inl rfl
    · split_ifs at hremoved
      exact .inr (Except.ok.inj hremoved).symm
  · have hsame : d' = d₁ := by split at hstop <;> exact Task.stops_done hstop
    obtain ⟨_, -, hremove⟩ := Task.runs_attempt.1 hrun
    rw [hsame]
    exact find_of_runs_removeFile hremove

/-- **A publication that dies** has linked the marker of a complete publication, or has changed nothing but
the staging name. -/
theorem publish_stops (hs : allowed .success) (hlt : n < u64Limit) (hstop : Task.Stops allowed (publishGenerationMarker n) d d') :
    Aside n d d' ∨ ∃ file report proof, Publishes d d' n file report proof := by
  have hstaging : Written n (canonicalStagingMarkerName n) := .inr (.inl rfl)
  unfold publishGenerationMarker at hstop
  rcases Task.stops_bind hstop with h | ⟨_, d₁, hrun, hrest⟩
  · exact .inl (quiet_done.sideways.aside h)
  rw [quiet_done.same hrun.stops] at hrest
  rcases Task.stops_bind hrest with h | ⟨ns, d₂, hrun, hrest⟩
  · exact .inl (quiet_reading.sideways.aside h)
  obtain ⟨hscan, hd₂⟩ := (runs_scan hs).1 hrun
  rw [hd₂] at hrest
  rcases Task.stops_bind hrest with h | ⟨_, d₃, hrun, hrest⟩
  · exact .inl (quiet_done.sideways.aside h)
  obtain ⟨hnewer, hd₃⟩ := runs_rejectWhen.1 hrun
  rw [hd₃] at hrest
  rcases Task.stops_bind hrest with h | ⟨_, d₄, hrun, hrest⟩
  · exact .inl (quiet_reading.sideways.aside h)
  rw [quiet_reading.same hrun.stops] at hrest
  rcases Task.stops_bind hrest with h | ⟨_, d₅, hrun, hrest⟩
  · exact .inl (quiet_reading.sideways.aside h)
  obtain ⟨hunmarked, hd₅⟩ := (runs_requireAbsent hs).1 hrun
  rw [hd₅] at hrest
  -- Only the stale staging marker goes before the candidate is proved.
  have hremove : Sideways n (removeStaleStagingIfSafe (canonicalStagingMarkerName n)) := by
    refine quiet_reading.sideways.bind fun found => ?_
    cases found with
    | true => exact (aside_permits hlt hstaging).removeFile
    | false => exact sideways_done
  rcases Task.stops_bind hrest with h | ⟨_, d₆, hstale, hrest⟩
  · exact .inl (hremove.aside h)
  have haside := hremove.aside hstale.stops
  have hfind := find_of_runs_removeStale hs hstale
  rcases Task.stops_bind hrest with h | ⟨⟨report, proof⟩, d₇, hrun, hrest⟩
  · rw [quiet_proveGeneration.same h]
    exact .inl haside
  obtain ⟨hd₇, file, hfile, hclean, hderived, hproved⟩ := (runs_proveGeneration hs).1 hrun
  rw [hd₇] at hrest
  rcases Task.stops_bind hrest with h | ⟨_, d₈, hrun, hrest⟩
  · rcases linkMarker_stops hs hlt h with hlink | ⟨hpos, hvalid, hd'⟩
    · exact .inl (haside.trans hlink)
    · exact .inr ⟨file, report, proof, publishes_of_linked hlt hscan hnewer hunmarked hfind hfile hclean hderived
        hproved hpos hvalid (.inl hd')⟩
  -- The link is there, so what is left only removes the staging name.
  obtain ⟨hpos, hvalid, hd₈⟩ := runs_linkMarker hs hrun
  rw [hd₈] at hrest
  refine .inr ⟨file, report, proof, publishes_of_linked hlt hscan hnewer hunmarked hfind hfile hclean hderived
    hproved hpos hvalid ?_⟩
  rcases Task.stops_bind hrest with h | ⟨_, d₉, hrun, hrest⟩
  · exact removeQuietly_stops h
  · rw [quiet_done.same hrest]
    exact find_of_runs_removeQuietly hrun

end DbLab.Generation
