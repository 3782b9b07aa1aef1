import DbLab.Btree.Session

/-!
# Overflow chains

`commit_overflow_blob` cuts a blob into chunks from its end, so that the first chunk is the short one, and writes
the last chunk first. A chain that the reader accepts has exactly the bytes that the reference promises: its pages
are overflow pages with one chunk each, no page is met twice, and the last one has no page behind it.
-/

namespace DbLab.Btree

open Checked

variable {p : Pager} {seen seen' : Seen}

/-- The number of overflow pages of a blob. -/
def overflowPageCount (length : ℕ) : ℕ := (length + (overflowCellCapacity - 1)) / overflowCellCapacity

namespace Pager

/-- Nothing is read from a poisoned pager. -/
theorem healthy_of_readOverflowBlob {first len maxLen : ℕ} {kind : String} {r : Bytes × Seen}
    (h : p.readOverflowBlob first len seen maxLen kind = .ok r) : p.poisoned = false := by
  by_contra hp
  have hread : ∀ id, p.readPage id = .error .poisoned := by
    intro id
    rw [readPage, ensureUsable, if_pos (by simpa using hp)]
    rfl
  unfold readOverflowBlob at h
  simp only [throw_eq, guard_eq_ok, not_or, not_lt, bind_eq_ok, Prod.exists] at h
  obtain ⟨⟨hpos, -⟩, out, last, seen'', hpages, -⟩ := h
  obtain ⟨left, hleft⟩ : ∃ left, (len + (overflowCellCapacity - 1)) / overflowCellCapacity = left + 1 := by
    simp only [overflowCellCapacity_eq]
    exact ⟨_, (Nat.succ_pred_eq_of_pos (by omega)).symm⟩
  rw [hleft, readOverflowPages] at hpages
  simp only [throw_eq, guard_eq_ok, bind_eq_ok, hread, reduceCtorEq, false_and, exists_false, and_false] at hpages

end Pager

/-- The chain of a blob has as many pages as its length requires. -/
theorem Blob.On.chain_length {read : ℕ → Option Page} {b : Blob} {first : ℕ} (h : b.On read)
    (hhead : b.chain.head? = some first) : b.chain.length = overflowPageCount b.bytes.length ∧
      b.chain.Nodup ∧ ∃ chunks : List Bytes, chunks.flatten = b.bytes ∧ ChainTo read (some first) b.chain chunks none := by
  rcases h with hnil | ⟨hnodup, chunk, chunks, hchunks, hchain⟩
  · rw [hnil] at hhead
    cases hhead
  · refine ⟨?_, hnodup, chunk :: chunks, ?_, ?_⟩
    · rw [hchain.length_eq, overflowPageCount, hchunks.arith.1]
      rfl
    · rw [List.flatten_cons, hchunks.flatten]
    · rw [← hhead]
      exact hchain

namespace BPlusTree

variable {s s' : BPlusTree}

/-- The pool that a mutation starts with. -/
theorem refreshReusablePages_ready (hlive : s.pager.Live) :
    Prog.wp refreshReusablePages (fun _ s' => s'.Ready) (fun _ _ => True) s := by
  unfold refreshReusablePages query
  simp only [Prog.wp_bind, Prog.wp_reads, Prog.wp_modify]
  refine ⟨fun reachable _ => ⟨hlive, List.Nodup.filter _ List.nodup_range', fun id hid => ?_⟩, fun _ _ => trivial⟩
  have hcount := s.pager.active.count_ok
  simp only [unreachablePages, List.mem_filter, List.mem_range'_1, Pager.dataPageCount] at hid
  exact ⟨hid.1.1, by show id < s.pager.active.pageCount; omega⟩

/-- **Overflow chains round trip, and nothing else is accepted.** In a mutation, from its pool on, a non-empty blob
is written on as many fresh pages as its length requires and read back under every limit that admits it; the write
fails only for an injected fault or the end of the counters. And whatever the pages of the file are, a blob is read only from a chain whose
chunks are the blob and have the promised length, without a page met twice and without a page behind the last. -/
theorem overflow_blob :
    (∀ s, Session s → Prog.wp refreshReusablePages (fun _ s' => s'.Ready) (fun _ _ => True) s) ∧
    (∀ (s : BPlusTree) bytes, s.Ready → bytes ≠ [] →
      Prog.wp (commitOverflowBlob bytes) (fun first s' => ∃ ids : List ℕ, ids.head? = some first ∧
          ids.length = overflowPageCount bytes.length ∧ s.Takes ids s' ∧
          ∀ maxLen kind, bytes.length ≤ maxLen →
            s'.pager.readOverflowBlob first bytes.length none maxLen kind = .ok (bytes, none))
        (s.Stops False) s) ∧
    ∀ (p : Pager) first len seen maxLen kind bytes seen',
      p.readOverflowBlob first len seen maxLen kind = .ok (bytes, seen') →
      bytes.length = len ∧ len ≤ maxLen ∧ ∃ (ids : List ℕ) (chunks : List Bytes), chunks.flatten = bytes ∧
        ids.length = overflowPageCount len ∧ ids.Nodup ∧ seen.Adds ids seen' ∧
        ChainTo p.view (some first) ids chunks none := by
  refine ⟨fun s h => refreshReusablePages_ready h.live.1, fun s bytes h hne => Prog.wp_mono (commitOverflowBlob_spec h hne) ?_ fun _ _ he => he,
    fun p first len seen maxLen kind bytes seen' hread => ?_⟩
  · rintro first s' ⟨b, rfl, hhead, htakes, hkept⟩
    obtain ⟨hlength, -, -⟩ := hkept.1.chain_length hhead
    refine ⟨b.chain, hhead, hlength, htakes, fun maxLen kind hmax => ?_⟩
    exact (readOverflowBlob_eq_ok htakes.ready.live.healthy).2 ⟨b, rfl, hhead, hkept.1, rfl, hmax, rfl⟩
  · obtain ⟨b, rfl, hhead, hon, rfl, hmax, hadds⟩ :=
      (readOverflowBlob_eq_ok (Pager.healthy_of_readOverflowBlob hread)).1 hread
    obtain ⟨hlength, hnodup, chunks, hflatten, hchain⟩ := hon.chain_length hhead
    exact ⟨rfl, hmax, b.chain, chunks, hflatten, hlength, hnodup, hadds, hchain⟩

/-- A blob on the first page of a new file. -/
theorem overflow_blob_first : ∃ first s', commitOverflowBlob [1] createNew = (.ok first, s') ∧
    s'.pager.readOverflowBlob first 1 none 1 "value" = .ok ([1], none) := by
  have hready : createNew.Ready := ⟨createNew_live.1, List.nodup_nil, fun id hid => by cases hid⟩
  have hok : (commitOverflowBlob [1] createNew).1 = .ok 2 := by decide +kernel
  have hrun : commitOverflowBlob [1] createNew = (.ok 2, (commitOverflowBlob [1] createNew).2) := by rw [← hok]
  obtain ⟨_, _, _, _, hread⟩ := Prog.wp_ok (overflow_blob.2.1 createNew [1] hready (by decide)) hrun
  exact ⟨2, _, hrun, hread 1 "value" le_rfl⟩

end BPlusTree
end DbLab.Btree
