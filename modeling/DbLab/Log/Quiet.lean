import DbLab.Log.Handle

/-!
# A handle without faults

Where nothing goes wrong at the file system and nobody replaces the file, a handle is its engine: a put and a
get have the same answers, and a reopen gives the engine back.
-/

namespace DbLab.Log.Handle

open Record

variable {around : Surroundings} {engine : LogEngine} {ms : List Mutation}

theorem put_of_quiet (hquiet : Quiet around) (path : String) (engine : LogEngine) (key value : Bytes) :
    put around key value ⟨path, true, engine⟩ =
      ((LogEngine.put key value engine).1, ⟨path, true, (LogEngine.put key value engine).2⟩) := by
  rw [put, LogEngine.put]
  cases validateKeyValue key value with
  | error e => rfl
  | ok _ =>
    rw [Prog.ofExcept_ok_bind, Prog.ofExcept_ok_bind, Prog.get_bind, Prog.get_bind]
    have happend := append_of_quiet hquiet path engine .put key value
    cases hrun : LogEngine.append .put key value engine with
    | mk answer engine' =>
      rw [hrun] at happend
      cases answer with
      | error e => rw [Prog.bind_error happend, Prog.bind_error hrun]
      | ok _ =>
        rw [Prog.bind_ok happend, Prog.bind_ok hrun]
        rfl

theorem get_of_quiet (path : String) (engine : LogEngine) (key : Bytes) :
    (get key ⟨path, true, engine⟩).1 = (LogEngine.get key engine).1 := by
  rw [get, LogEngine.get]
  cases validateKey key with
  | error e => rfl
  | ok _ =>
    rw [Prog.ofExcept_ok_bind, Prog.ofExcept_ok_bind]
    by_cases hpoisoned : engine.poisoned = true
    · rw [Prog.bind_error (e := .poisoned) (t := ⟨path, true, engine⟩), Prog.bind_error (e := .poisoned) (t := engine)]
      · rw [LogEngine.ensureUsable, Prog.reads, if_pos hpoisoned]
      · rw [ensureUsable, Prog.reads, if_pos (.inl hpoisoned)]
    · rw [Prog.bind_ok (a := ()) (t := ⟨path, true, engine⟩), Prog.bind_ok (a := ()) (t := engine)]
      · rfl
      · rw [LogEngine.ensureUsable, Prog.reads, if_neg hpoisoned]
      · rw [ensureUsable, Prog.reads, if_neg]
        simpa using hpoisoned

/-- The scan of the file of an engine, with its counts. -/
theorem scanFile_of_holds (h : engine.Holds ms) :
    Log.scanFile engine.log.file = .ok
      { fileBytes := engine.log.file.length
        validBytes := engine.log.acknowledgedValidBytes
        recordCount := engine.log.recordCount
        nextSequence := engine.log.nextSequence
        recoverableTail := none
        values := engine.values } := by
  have hcut : recordFormat.Cut ms (recordFormat.recordsBytes ms).length ms.length [] :=
    ⟨le_rfl, by rw [List.take_length, List.take_length, List.append_nil], .inl rfl⟩
  have hscan := h.scanFile_cut hcut
  have hlen : engine.log.file.length = fileHeaderLen + (recordFormat.recordsBytes ms).length := by
    rw [h.appended.file_eq, List.length_append, encodeFileHeader_length]
  rw [← hlen, List.take_length] at hscan
  have hstart : recordFormat.recordStart fileHeaderLen ms ms.length = engine.log.file.length := by
    rw [hlen, RecordFormat.recordStart, List.take_length]
  rw [hscan, hstart, List.take_length, h.appended.acknowledged, h.appended.recordCount, h.appended.nextSequence,
    h.values]
  rfl

/-- **A reopen without faults** gives the engine back. -/
theorem reopen_of_quiet (hquiet : Quiet around) (helsewhere : around.elsewhere = none) (path : String)
    (h : engine.Holds ms) :
    reopen around ⟨path, true, engine⟩ = (.ok (), ⟨path, true, { engine with recoveredTail := none }⟩) := by
  have hscan := scanFile_of_holds h
  have hfloor : checkFloor around engine.log engine.log.file = .ok () := by
    unfold checkFloor
    simp only [hquiet.call, hscan, Checked.bind_eq_ok, Except.ok.injEq, exists_eq_left', failWhen_eq_ok,
      lt_irrefl, not_false_eq_true, exists_const, true_and, h.appended.acknowledged, List.take_length,
      h.appended.acknowledgedPrefix, not_not]
  have hcandidate : fromCandidate around engine.log.file =
      (.ok { engine with recoveredTail := none }, engine.log.file) := by
    unfold fromCandidate
    simp only [hquiet.call, hscan, Checked.ok_bind, Option.isSome_none, Bool.false_eq_true, if_false]
    have hacknowledged : engine.log.file.take engine.log.acknowledgedValidBytes = engine.log.acknowledgedPrefix := by
      rw [h.appended.acknowledged, List.take_length, h.appended.acknowledgedPrefix]
    rw [hacknowledged, ← h.usable]
  have hown : orRelease (around.call .ownershipCheck) ⟨path, true, engine⟩ = (.ok (), ⟨path, true, engine⟩) := by
    rw [hquiet.call, orRelease]
  have hpoison : ∀ (x : Except DbError Unit), x = .ok () →
      orPoison x ⟨path, true, engine⟩ = (.ok (), ⟨path, true, engine⟩) := by
    rintro _ rfl
    rfl
  have hidentity : checkIdentity around ⟨path, true, engine⟩ = (.ok (), ⟨path, true, engine⟩) := by
    rw [checkIdentity, Prog.get_bind, if_pos rfl, Prog.bind_ok (a := ()) (t := ⟨path, true, engine⟩)]
    · exact hpoison _ (failWhen_eq_ok.2 (by rw [helsewhere]; decide))
    · rw [hquiet.call, orRelease]
  rw [reopen, Prog.bind_ok hown, Prog.bind_ok (hpoison _ (hquiet.call _)), Prog.bind_ok (hpoison _ (hquiet.call _)),
    Prog.bind_ok hidentity, Prog.get_bind, helsewhere, Option.getD_none, Prog.bind_ok (hpoison _ hfloor), hcandidate]
  rfl

end DbLab.Log.Handle
