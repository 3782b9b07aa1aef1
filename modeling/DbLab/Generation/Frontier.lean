import DbLab.Generation.Compaction

/-!
# The allocation frontier

The next generation id is inferred from the names in the directory. Every operation leaves, for each
id that it removes a file of, another file of the same or a higher id; ids are only added by
reservations, one above the highest id there is; and a reservation is never removed. So the frontier
never moves back, and no id is handed out twice, in any interleaving and with crashes anywhere.
-/

namespace DbLab.Generation

/-- An id that a canonical name can have. -/
def ValidId (id : ℕ) : Prop := 0 < id ∧ id < u64Limit

/-- Some file has this id or a higher one. -/
def Observed (d : Directory) (n : ℕ) : Prop :=
  ∃ kind id, n ≤ id ∧ ValidId id ∧ d.Has (canonicalName kind id)

/-- Some file other than a staging marker has this id or a higher one. -/
def Anchored (d : Directory) (n : ℕ) : Prop :=
  ∃ kind id, kind ≠ FileKind.stagingCommit ∧ n ≤ id ∧ ValidId id ∧ d.Has (canonicalName kind id)

/-- The id has a reservation. -/
def Reserved (d : Directory) (n : ℕ) : Prop := ValidId n ∧ d.Has (canonicalReservationName n)

/-- The directory, with the agent that has made each reservation. -/
abbrev Marked := Directory × (ℕ → Option ℕ)

open Classical in
/-- The agent `i` has made the reservations that are new. -/
noncomputable def marking (i : ℕ) (d d' : Directory) (maker : ℕ → Option ℕ) : ℕ → Option ℕ :=
  fun n => if Reserved d' n ∧ ¬ Reserved d n then some i else maker n

/-- What all operations keep. -/
structure Grows (x y : Marked) : Prop where
  reserved : ∀ n, Reserved x.1 n → Reserved y.1 n
  observed : ∀ n, Observed x.1 n → Observed y.1 n
  anchored : ∀ n, Anchored x.1 n → Anchored y.1 n
  fresh : ∀ n, 0 < n → Observed y.1 n → Observed x.1 n ∨ Reserved y.1 n
  maker : ∀ n, Reserved x.1 n → y.2 n = x.2 n

variable {x y z : Marked} {d d' : Directory} {maker : ℕ → Option ℕ} {i n : ℕ} {kind : FileKind}
  {name : Name}

theorem Grows.refl (x : Marked) : Grows x x :=
  ⟨fun _ h => h, fun _ h => h, fun _ h => h, fun _ _ h => .inl h, fun _ _ => rfl⟩

theorem Grows.trans ⦃x y z : Marked⦄ (h : Grows x y) (h' : Grows y z) : Grows x z where
  reserved n hn := h'.reserved n (h.reserved n hn)
  observed n hn := h'.observed n (h.observed n hn)
  anchored n hn := h'.anchored n (h.anchored n hn)
  fresh n hpos hn := by
    rcases h'.fresh n hpos hn with hn | hn
    · exact (h.fresh n hpos hn).imp id (h'.reserved n)
    · exact .inr hn
  maker n hn := (h'.maker n (h.reserved n hn)).trans (h.maker n hn)

/-- A step of the agent `i`. -/
theorem Grows.of_step (hreserved : ∀ n, Reserved d n → Reserved d' n)
    (hobserved : ∀ n, Observed d n → Observed d' n) (hanchored : ∀ n, Anchored d n → Anchored d' n)
    (hfresh : ∀ n, 0 < n → Observed d' n → Observed d n ∨ Reserved d' n) :
    Grows (d, maker) (d', marking i d d' maker) where
  reserved := hreserved
  observed := hobserved
  anchored := hanchored
  fresh := hfresh
  maker n hn := by
    show marking i d d' maker n = maker n
    rw [marking, if_neg fun h => h.2 hn]

theorem Anchored.observed (h : Anchored d n) : Observed d n := by
  obtain ⟨kind, id, -, hle, hvalid, hhas⟩ := h
  exact ⟨kind, id, hle, hvalid, hhas⟩

theorem Reserved.anchored (h : Reserved d n) : Anchored d n :=
  ⟨.reservation, n, by decide, le_rfl, h.1, h.2⟩

theorem Observed.mono {m : ℕ} (h : Observed d n) (hle : m ≤ n) : Observed d m := by
  obtain ⟨kind, id, hid, hvalid, hhas⟩ := h
  exact ⟨kind, id, hle.trans hid, hvalid, hhas⟩

/-- A change of the directory that keeps its names. -/
theorem Grows.of_same_names (h : ∀ name, d'.Has name ↔ d.Has name) :
    Grows (d, maker) (d', marking i d d' maker) := by
  refine .of_step ?_ ?_ ?_ ?_
  · rintro n ⟨hvalid, hhas⟩
    exact ⟨hvalid, (h _).2 hhas⟩
  · rintro n ⟨kind, id, hle, hvalid, hhas⟩
    exact ⟨kind, id, hle, hvalid, (h _).2 hhas⟩
  · rintro n ⟨kind, id, hkind, hle, hvalid, hhas⟩
    exact ⟨kind, id, hkind, hle, hvalid, (h _).2 hhas⟩
  · rintro n - ⟨kind, id, hle, hvalid, hhas⟩
    exact .inl ⟨kind, id, hle, hvalid, (h _).1 hhas⟩

/-- The names that the operations use and that the frontier does not see. -/
def Foreign (name : Name) : Prop := ∀ kind id, name ≠ canonicalName kind id

theorem foreign_compactingName (output : Name) : Foreign (compactingName output) := by
  intro kind id h
  have hhead := congrArg List.head? h
  revert hhead
  cases kind <;> simp [compactingName, canonicalName, FileKind.fixedPrefix]

/-- A new entry whose id is observed already, or whose name has no id, or which is the reservation of
the next id. -/
theorem Grows.insert {entry : Entry}
    (h : ∀ kind id, ValidId id → name = canonicalName kind id →
      Observed d id ∨ kind = .reservation ∧ ∀ m, m < id → 0 < m → Observed d m) :
    Grows (d, maker) (d.insert name entry, marking i d (d.insert name entry) maker) := by
  refine .of_step ?_ ?_ ?_ ?_
  · rintro n ⟨hvalid, hhas⟩
    exact ⟨hvalid, Directory.has_insert.2 (.inr hhas)⟩
  · rintro n ⟨kind, id, hle, hvalid, hhas⟩
    exact ⟨kind, id, hle, hvalid, Directory.has_insert.2 (.inr hhas)⟩
  · rintro n ⟨kind, id, hkind, hle, hvalid, hhas⟩
    exact ⟨kind, id, hkind, hle, hvalid, Directory.has_insert.2 (.inr hhas)⟩
  · rintro n hpos ⟨kind, id, hle, hvalid, hhas⟩
    rcases Directory.has_insert.1 hhas with rfl | hhas
    · rcases h kind id hvalid rfl with hobs | ⟨rfl, hbelow⟩
      · exact .inl (hobs.mono hle)
      · rcases hle.lt_or_eq with hlt | rfl
        · exact .inl (hbelow n hlt hpos)
        · exact .inr ⟨hvalid, Directory.has_insert.2 (.inl rfl)⟩
    · exact .inl ⟨kind, id, hle, hvalid, hhas⟩

theorem Grows.insert_foreign {entry : Entry} (h : Foreign name) :
    Grows (d, maker) (d.insert name entry, marking i d (d.insert name entry) maker) :=
  .insert fun kind id _ hname => absurd hname (h kind id)

theorem Grows.insert_observed {entry : Entry} (hid : ValidId n) (h : Observed d n) :
    Grows (d, maker) (d.insert (canonicalName kind n) entry,
      marking i d (d.insert (canonicalName kind n) entry) maker) := by
  refine .insert fun kind' id hvalid hname => .inl ?_
  obtain ⟨-, rfl⟩ := canonicalName_injective hid.2 hvalid.2 hname
  exact h

theorem Grows.remove_foreign (h : Foreign name) :
    Grows (d, maker) (d.remove name, marking i d (d.remove name) maker) := by
  refine .of_step ?_ ?_ ?_ ?_
  · rintro n ⟨hvalid, hhas⟩
    exact ⟨hvalid, Directory.has_remove.2 ⟨(h _ _).symm, hhas⟩⟩
  · rintro n ⟨kind, id, hle, hvalid, hhas⟩
    exact ⟨kind, id, hle, hvalid, Directory.has_remove.2 ⟨(h _ _).symm, hhas⟩⟩
  · rintro n ⟨kind, id, hkind, hle, hvalid, hhas⟩
    exact ⟨kind, id, hkind, hle, hvalid, Directory.has_remove.2 ⟨(h _ _).symm, hhas⟩⟩
  · rintro n - ⟨kind, id, hle, hvalid, hhas⟩
    exact .inl ⟨kind, id, hle, hvalid, (Directory.has_remove.1 hhas).2⟩

/-- A file may go when another one, which is no staging marker, keeps its id observed. -/
theorem Grows.remove (hkind : kind ≠ .reservation) (hid : ValidId n) {kind' : FileKind} {id' : ℕ}
    (hstaging : kind' ≠ .stagingCommit) (hle : n ≤ id') (hvalid : ValidId id')
    (hhas : d.Has (canonicalName kind' id')) (hne : kind' ≠ kind ∨ id' ≠ n) :
    Grows (d, maker) (d.remove (canonicalName kind n),
      marking i d (d.remove (canonicalName kind n)) maker) := by
  have hother : ∀ {kind₁ id₁}, ValidId id₁ → kind₁ ≠ kind ∨ id₁ ≠ n →
      canonicalName kind₁ id₁ ≠ canonicalName kind n := by
    intro kind₁ id₁ hvalid₁ hne₁ heq
    obtain ⟨hk, hn⟩ := canonicalName_injective hvalid₁.2 hid.2 heq
    exact hne₁.elim (fun h => h hk) fun h => h hn
  have hkeep : (d.remove (canonicalName kind n)).Has (canonicalName kind' id') :=
    Directory.has_remove.2 ⟨hother hvalid hne, hhas⟩
  refine .of_step ?_ ?_ ?_ ?_
  · rintro m ⟨hm, hhas⟩
    exact ⟨hm, Directory.has_remove.2 ⟨hother hm (.inl hkind.symm), hhas⟩⟩
  · rintro m ⟨kind₁, id₁, hle₁, hvalid₁, hhas₁⟩
    by_cases hne₁ : kind₁ ≠ kind ∨ id₁ ≠ n
    · exact ⟨kind₁, id₁, hle₁, hvalid₁, Directory.has_remove.2 ⟨hother hvalid₁ hne₁, hhas₁⟩⟩
    · obtain ⟨-, rfl⟩ := not_or.1 hne₁ |>.imp not_not.1 not_not.1
      exact ⟨kind', id', hle₁.trans hle, hvalid, hkeep⟩
  · rintro m ⟨kind₁, id₁, hkind₁, hle₁, hvalid₁, hhas₁⟩
    by_cases hne₁ : kind₁ ≠ kind ∨ id₁ ≠ n
    · exact ⟨kind₁, id₁, hkind₁, hle₁, hvalid₁, Directory.has_remove.2 ⟨hother hvalid₁ hne₁, hhas₁⟩⟩
    · obtain ⟨-, rfl⟩ := not_or.1 hne₁ |>.imp not_not.1 not_not.1
      exact ⟨kind', id', hstaging, hle₁.trans hle, hvalid, hkeep⟩
  · rintro m - ⟨kind₁, id₁, hle₁, hvalid₁, hhas₁⟩
    exact .inl ⟨kind₁, id₁, hle₁, hvalid₁, (Directory.has_remove.1 hhas₁).2⟩

theorem Grows.remove_reserved (hkind : kind ≠ .reservation) (h : Reserved d n) :
    Grows (d, maker) (d.remove (canonicalName kind n),
      marking i d (d.remove (canonicalName kind n)) maker) :=
  .remove hkind h.1 (by decide) le_rfl h.1 h.2 (.inl hkind.symm)

theorem Grows.remove_staging (hid : ValidId n) (h : Anchored d n) :
    Grows (d, maker) (d.remove (canonicalName .stagingCommit n),
      marking i d (d.remove (canonicalName .stagingCommit n)) maker) := by
  obtain ⟨kind', id', hstaging, hle, hvalid, hhas⟩ := h
  exact .remove (by decide) hid hstaging hle hvalid hhas (.inl hstaging)

theorem Grows.remove_below {m : ℕ} (hkind : kind ≠ .reservation) (hid : ValidId n) (hlt : n < m)
    (h : Anchored d m) :
    Grows (d, maker) (d.remove (canonicalName kind n),
      marking i d (d.remove (canonicalName kind n)) maker) := by
  obtain ⟨kind', id', hstaging, hle, hvalid, hhas⟩ := h
  exact .remove hkind hid hstaging (hlt.le.trans hle) hvalid hhas (.inr (by omega))

end DbLab.Generation
