import DbLab.Lib.SortedMap
import DbLab.Btree.PagerRun

/-!
# The page cache

The pager keeps at most `capacity` validated pages and gives up the one that was used least recently. A
`CachedPager` is a `Pager` with its cache; its operations are those of `Pager`, with the cache in front of the
file. As long as the link of a page is committed when the page is, a cached page is the one in the file, so that
no read depends on the cache.
-/

namespace DbLab.Btree

/-! ### The cache -/

/-- Source `PageCache`. -/
structure PageCache where
  capacity : ℕ
  pages : SortedMap ℕ Page
  /-- The cached page ids, the least recently used one first. -/
  order : List ℕ

namespace PageCache

variable {cache : PageCache} {page q : Page} {id pageId capacity : ℕ}

def new (capacity : ℕ) : PageCache := ⟨capacity, .empty, []⟩

/-- Source `len`. -/
def len (cache : PageCache) : ℕ := cache.pages.entries.length

/-- Source `touch`. -/
def touch (cache : PageCache) (pageId : ℕ) : PageCache :=
  { cache with order := cache.order.erase pageId ++ [pageId] }

/-- Source `get`. -/
def get (cache : PageCache) (pageId : ℕ) : Option (Page × PageCache) :=
  (cache.pages.find pageId).map fun page => (page, cache.touch pageId)

/-- The step of `insert` that removes the least recently used page when there is one too many. -/
def evict (cache : PageCache) : PageCache :=
  if cache.capacity < cache.len then
    match cache.order with
    | [] => cache
    | evicted :: order => { cache with pages := cache.pages.erase evicted, order }
  else cache

/-- Source `insert`. -/
def insert (cache : PageCache) (page : Page) : PageCache :=
  let inserted := { cache with pages := cache.pages.insert page.pageId page }
  if (cache.pages.find page.pageId).isSome then inserted.touch page.pageId
  else
    let kept := inserted.evict
    { kept with order := kept.order ++ [page.pageId] }

/-- The order lists each cached page once, and there are at most as many as the capacity. -/
structure Wf (cache : PageCache) : Prop where
  nodup : cache.order.Nodup
  mem_order : ∀ id, id ∈ cache.order ↔ (cache.pages.find id).isSome
  len_le : cache.len ≤ cache.capacity
  pos : 0 < cache.capacity

theorem Wf.new (h : 0 < capacity) : (new capacity).Wf :=
  ⟨List.nodup_nil, fun id => by simp [PageCache.new], Nat.zero_le _, h⟩

/-- The number of cached pages, by the order. -/
theorem len_eq (hnodup : cache.order.Nodup) (hmem : ∀ id, id ∈ cache.order ↔ (cache.pages.find id).isSome) :
    cache.len = cache.order.length := by
  have hkeys : cache.pages.keys.Nodup := by
    have h := cache.pages.sorted
    rw [SortedBy, ← List.pairwise_map] at h
    exact h.imp fun hlt => hlt.ne
  have hperm : cache.pages.keys.Perm cache.order :=
    (List.perm_ext_iff_of_nodup hkeys hnodup).2 fun id => by rw [SortedMap.mem_keys, hmem]
  rw [← hperm.length_eq, SortedMap.keys, List.length_map]
  rfl

@[simp] theorem touch_pages (id : ℕ) : (cache.touch id).pages = cache.pages := rfl

@[simp] theorem touch_capacity (id : ℕ) : (cache.touch id).capacity = cache.capacity := rfl

/-- A cached page that is used moves to the end of the order. -/
theorem Wf.touch (h : cache.Wf) (hid : (cache.pages.find id).isSome) : (cache.touch id).Wf where
  nodup := by
    show (cache.order.erase id ++ [id]).Nodup
    rw [List.nodup_append]
    refine ⟨h.nodup.erase id, List.nodup_singleton id, fun a ha b hb => ?_⟩
    obtain rfl := List.mem_singleton.1 hb
    exact (h.nodup.mem_erase_iff.1 ha).1
  mem_order k := by
    show k ∈ cache.order.erase id ++ [id] ↔ _
    rw [List.mem_append, List.mem_singleton, h.nodup.mem_erase_iff, touch_pages, ← h.mem_order]
    by_cases hk : k = id
    · simp [hk, (h.mem_order id).2 hid]
    · simp [hk]
  len_le := h.len_le
  pos := h.pos

theorem find_of_find_evict (h : cache.evict.pages.find id = some q) : cache.pages.find id = some q := by
  unfold evict at h
  split_ifs at h
  · cases horder : cache.order with
    | nil =>
      rw [horder] at h
      exact h
    | cons evicted order =>
      simp only [horder] at h
      rw [SortedMap.find_erase] at h
      split_ifs at h
      exact h
  · exact h

/-- A cached page behind an insertion is the inserted one or was cached before. -/
theorem find_insert_of_eq_some (h : (cache.insert page).pages.find id = some q) :
    id = page.pageId ∧ q = page ∨ id ≠ page.pageId ∧ cache.pages.find id = some q := by
  have hinserted : ∀ k, (cache.pages.insert page.pageId page).find k = some q →
      k = page.pageId ∧ q = page ∨ k ≠ page.pageId ∧ cache.pages.find k = some q := by
    intro k hk
    rw [SortedMap.find_insert] at hk
    split_ifs at hk with heq
    · exact .inl ⟨heq, (Option.some.inj hk).symm⟩
    · exact .inr ⟨heq, hk⟩
  unfold insert at h
  split_ifs at h with hsome
  · exact hinserted id h
  · exact hinserted id (find_of_find_evict h)

/-- **An insertion keeps the order exact and the cache within its capacity.** -/
theorem Wf.insert (h : cache.Wf) (page : Page) : (cache.insert page).Wf := by
  unfold PageCache.insert
  by_cases hsome : (cache.pages.find page.pageId).isSome
  · have hkeep : Wf { cache with pages := cache.pages.insert page.pageId page } := by
      have hmem : ∀ k, k ∈ cache.order ↔ ((cache.pages.insert page.pageId page).find k).isSome := by
        intro k
        rw [SortedMap.find_insert, h.mem_order]
        by_cases hk : k = page.pageId
        · simp [hk, hsome]
        · simp [hk]
      have hlen := @len_eq { cache with pages := cache.pages.insert page.pageId page } h.nodup hmem
      refine ⟨h.nodup, hmem, ?_, h.pos⟩
      rw [hlen]
      show cache.order.length ≤ cache.capacity
      rw [← len_eq h.nodup h.mem_order]
      exact h.len_le
    rw [if_pos hsome]
    exact hkeep.touch (by rw [SortedMap.find_insert, if_pos rfl]; rfl)
  · rw [if_neg hsome]
    have hnew : page.pageId ∉ cache.order := fun hmem => hsome ((h.mem_order _).1 hmem)
    -- What is left of the order when the inserted page is appended.
    have hfinish : ∀ order pages, (∀ k ∈ order, k ∈ cache.order) → order.Nodup →
        (∀ k, k ∈ order ++ [page.pageId] ↔ (SortedMap.find pages k).isSome) → order.length < cache.capacity →
        Wf ⟨cache.capacity, pages, order ++ [page.pageId]⟩ := by
      intro order pages hsub hnodup hmem hlt
      have hall : (order ++ [page.pageId]).Nodup := by
        rw [List.nodup_append]
        refine ⟨hnodup, List.nodup_singleton _, fun a ha b hb => ?_⟩
        obtain rfl := List.mem_singleton.1 hb
        exact fun heq => hnew (heq ▸ hsub a ha)
      refine ⟨hall, hmem, ?_, h.pos⟩
      rw [@len_eq ⟨cache.capacity, pages, order ++ [page.pageId]⟩ hall hmem, List.length_append]
      exact hlt
    have hmem : ∀ k, k ∈ cache.order ++ [page.pageId] ↔
        ((cache.pages.insert page.pageId page).find k).isSome := by
      intro k
      rw [SortedMap.find_insert, List.mem_append, List.mem_singleton, h.mem_order]
      by_cases hk : k = page.pageId
      · simp [hk]
      · simp [hk]
    have hlen : len { cache with pages := cache.pages.insert page.pageId page } = cache.order.length + 1 := by
      have hmem' : ∀ k, k ∈ page.pageId :: cache.order ↔
          ((cache.pages.insert page.pageId page).find k).isSome := by
        intro k
        rw [← hmem]
        simp [or_comm]
      exact @len_eq ⟨cache.capacity, cache.pages.insert page.pageId page, page.pageId :: cache.order⟩
        (List.nodup_cons.2 ⟨hnew, h.nodup⟩) hmem'
    dsimp only
    rw [evict, hlen]
    dsimp only
    by_cases hfull : cache.capacity < cache.order.length + 1
    · rw [if_pos hfull]
      have hle : cache.order.length ≤ cache.capacity := by
        rw [← len_eq h.nodup h.mem_order]
        exact h.len_le
      have hpos := h.pos
      cases horder : cache.order with
      | nil =>
        rw [horder, List.length_nil] at hfull
        omega
      | cons evicted order =>
        rw [horder] at hnew hmem hle
        have hnodup := h.nodup
        rw [horder, List.nodup_cons] at hnodup
        refine hfinish order _ (fun k hk => by rw [horder]; exact List.mem_cons_of_mem _ hk) hnodup.2
          (fun k => ?_) (by rw [List.length_cons] at hle; omega)
        rw [SortedMap.find_erase]
        by_cases hk : k = evicted
        · rw [if_pos hk, hk]
          have hne : evicted ≠ page.pageId := fun heq => hnew (heq ▸ List.mem_cons_self)
          simp [hnodup.1, hne]
        · rw [if_neg hk, ← hmem k]
          simp [hk]
    · rw [if_neg hfull]
      exact hfinish cache.order _ (fun _ hk => hk) h.nodup hmem (by omega)

end PageCache

/-! ### The pager with its cache -/

/-- The pager of the source, cache included. -/
structure CachedPager where
  pager : Pager
  cache : PageCache

namespace Pager

variable {p p' : Pager} {page : Page} {id : ℕ}

/-- A failed write poisons. -/
theorem wp_poisoned (x : Prog Pager BtreeError Unit) :
    Prog.wp (poisonOnError x) (fun _ _ => True) (fun _ p' => p'.poisoned = true) p := by
  rw [wp_poisonOnError, Prog.wp_iff_forall]
  exact ⟨fun _ _ _ => trivial, fun _ _ _ => rfl⟩

/-- How an operation of the pager fails: in front of its first write or poisoned. -/
def Refused (p p' : Pager) : Prop := p' = p ∨ p'.poisoned = true

theorem commitNewPage_refused (page : Page) :
    Prog.wp (commitNewPage page) (fun _ _ => page.pageId = p.active.pageCount ∧ p.poisoned = false)
      (fun _ p' => Refused p p') p := by
  refine wp_commitNewPage (fun _ => .inl rfl) fun hp hid _ _ _ => ?_
  refine Prog.wp_mono (wp_poisoned _) (fun _ _ _ => ?_) fun _ _ hpoisoned => .inr hpoisoned
  exact Prog.wp_mono (wp_poisoned _) (fun _ _ _ => ⟨hid, hp⟩) fun _ _ hpoisoned => .inr hpoisoned

theorem commitRecycledPage_refused (page : Page) :
    Prog.wp (commitRecycledPage page) (fun _ _ => ¬ p.Outside page.pageId ∧ p.poisoned = false)
      (fun _ p' => Refused p p') p := by
  refine wp_commitRecycledPage (fun _ => .inl rfl) fun hp hin => ?_
  exact Prog.wp_mono (wp_poisoned _) (fun _ _ _ => ⟨hin, hp⟩) fun _ _ hpoisoned => .inr hpoisoned

theorem publishRoot_refused {encoded : ℕ}
    (hroot : encoded = rootNone ∨ superblockCount ≤ encoded ∧ encoded < p.active.pageCount) :
    Prog.wp (publishRoot p encoded hroot) (fun _ _ => True) (fun _ p' => Refused p p') p := by
  refine wp_publishRoot hroot (fun _ => trivial) (fun _ => .inl rfl) fun _ _ => ?_
  exact Prog.wp_mono (wp_poisoned _) (fun _ _ _ => trivial) fun _ _ hpoisoned => .inr hpoisoned

end Pager

namespace CachedPager

open Prog

variable {s s' : CachedPager} {id capacity : ℕ} {page q : Page} {kept : ℕ → Option Page} {e : BtreeError}

/-- Source `validate_cache_capacity`. -/
def validateCacheCapacity (capacity : ℕ) : Except BtreeError Unit :=
  if capacity = 0 then .error (.invalidInput "pager cache capacity must be greater than zero") else .ok ()

/-- Source `Pager::create_new`. -/
def createNew (capacity : ℕ) : Except BtreeError CachedPager := do
  validateCacheCapacity capacity
  .ok ⟨.createNew, .new capacity⟩

/-- Source `Pager::open`. -/
def openFile (file : PageFile) (capacity : ℕ) : Except BtreeError CachedPager := do
  validateCacheCapacity capacity
  let pager ← Pager.openFile file
  .ok ⟨pager, .new capacity⟩

/-- A computation of the pager that leaves the cache alone. -/
def onPager {α : Type} (x : Prog Pager BtreeError α) : Prog CachedPager BtreeError α :=
  Prog.zoom CachedPager.pager (fun s pager => { s with pager }) x

def cacheInsert (page : Page) : Prog CachedPager BtreeError Unit :=
  Prog.modify fun s => { s with cache := s.cache.insert page }

/-- Source `read_page`. Behind a miss the checks in front, which `Pager.readPage` repeats, hold. -/
def readPage (pageId : ℕ) : Prog CachedPager BtreeError Page := do
  let s ← Prog.get
  Prog.ofExcept s.pager.ensureUsable
  Prog.ofExcept (s.pager.validateCommittedPageId pageId)
  match s.cache.get pageId with
  | some (page, cache) => do
    Prog.set { s with cache }
    pure page
  | none => do
    let page ← Prog.ofExcept (s.pager.readPage pageId)
    cacheInsert page
    pure page

/-- Source `commit_new_page`. -/
def commitNewPage (page : Page) : Prog CachedPager BtreeError ℕ := do
  let pageId ← onPager (Pager.commitNewPage page)
  cacheInsert page
  pure pageId

/-- Source `commit_recycled_page`. -/
def commitRecycledPage (page : Page) : Prog CachedPager BtreeError ℕ := do
  let pageId ← onPager (Pager.commitRecycledPage page)
  cacheInsert page
  pure pageId

/-- Source `set_root`. -/
def setRoot (root : Option ℕ) : Prog CachedPager BtreeError Unit := do
  let s ← Prog.get
  Prog.ofExcept s.pager.ensureUsable
  match root with
  | none => onPager (Pager.publishRoot s.pager rootNone (.inl rfl))
  | some pageId =>
    if h : s.pager.Outside pageId then
      Prog.throw (s.pager.outsideError pageId)
    else do
      let _ ← readPage pageId
      onPager (Pager.publishRoot s.pager pageId
        (.inr ⟨not_lt.1 fun hlt => h (.inl hlt), not_le.1 fun hle => h (.inr hle)⟩))

/-- The same pager with nothing cached. -/
def emptied (s : CachedPager) : CachedPager := { s with cache := .new s.cache.capacity }

/-- The state of a pager whose cache says what the file says, as long as no write has failed. -/
structure Coherent (s : CachedPager) : Prop where
  wf : s.cache.Wf
  live : s.pager.poisoned = false → s.pager.Live
  cached : s.pager.poisoned = false → ∀ id page, s.cache.pages.find id = some page → s.pager.view id = some page

theorem Coherent.of_new {pager : Pager} (hcapacity : 0 < capacity) (h : pager.poisoned = false → pager.Live) :
    Coherent ⟨pager, .new capacity⟩ :=
  ⟨.new hcapacity, h, fun _ id page hfind => by cases hfind⟩

theorem Coherent.emptied (h : s.Coherent) : s.emptied.Coherent := .of_new h.wf.pos h.live

/-- A page that the pager reads may be cached. -/
theorem Coherent.cacheInsert (h : s.Coherent) (hview : s.pager.view page.pageId = some page) :
    Coherent { s with cache := s.cache.insert page } where
  wf := h.wf.insert page
  live := h.live
  cached hp id q hfind := by
    rcases PageCache.find_insert_of_eq_some hfind with ⟨rfl, rfl⟩ | ⟨-, hold⟩
    · exact hview
    · exact h.cached hp id q hold

/-- **A read does what the pager does without a cache**, and leaves a coherent cache. -/
theorem Coherent.readPage (h : s.Coherent) (id : ℕ) :
    ∃ cache, CachedPager.readPage id s = (s.pager.readPage id, { s with cache }) ∧
      Coherent { s with cache } := by
  have hself : s = { s with cache := s.cache } := rfl
  unfold CachedPager.readPage
  rw [get_bind]
  cases husable : s.pager.ensureUsable with
  | error e =>
    refine ⟨s.cache, ?_, h⟩
    rw [ofExcept_error_bind, Pager.readPage, husable]
    rfl
  | ok u =>
    rw [ofExcept_ok_bind]
    have hp : s.pager.poisoned = false := Pager.ensureUsable_eq_ok.1 husable
    cases hvalid : s.pager.validateCommittedPageId id with
    | error e =>
      refine ⟨s.cache, ?_, h⟩
      rw [ofExcept_error_bind, Pager.readPage, husable, Checked.ok_bind, hvalid]
      rfl
    | ok u =>
      rw [ofExcept_ok_bind]
      cases hfind : s.cache.pages.find id with
      | some page =>
        have hview := h.cached hp id page hfind
        refine ⟨s.cache.touch id, ?_, h.wf.touch (by rw [hfind]; rfl), h.live, h.cached⟩
        rw [PageCache.get, hfind, Pager.readPage_eq_ok.2 ⟨hp, hview⟩]
        rfl
      | none =>
        rw [PageCache.get, hfind]
        cases hread : s.pager.readPage id with
        | error e => exact ⟨s.cache, rfl, h⟩
        | ok page =>
          refine ⟨s.cache.insert page, rfl, h.cacheInsert ?_⟩
          have hview := (Pager.readPage_eq_ok.1 hread).2
          rw [(Pager.view_eq_some.1 hview).2.2.2.2.1]
          exact hview

/-! ### Operations -/

/-- An operation of a caller. -/
inductive Op
  | commitNewPage (page : Page)
  | commitRecycledPage (page : Page)
  | setRoot (root : Option ℕ)
  | readPage (pageId : ℕ)

namespace Op

def run : Op → Prog CachedPager BtreeError Unit
  | .commitNewPage page => do
    let _ ← CachedPager.commitNewPage page
  | .commitRecycledPage page => do
    let _ ← CachedPager.commitRecycledPage page
  | .setRoot root => CachedPager.setRoot root
  | .readPage pageId => do
    let _ ← CachedPager.readPage pageId

/-- What the committed pages are behind the operation. -/
def keep (kept : ℕ → Option Page) : Op → ℕ → Option Page
  | .commitNewPage page | .commitRecycledPage page => Function.update kept page.pageId (some page)
  | _ => kept

/-- The link of a page to commit is committed. Since a page is not linked to itself, it is also below the page
count behind the commit exactly when it is below the one in front. -/
def Linked (pager : Pager) : Op → Prop
  | .commitNewPage page | .commitRecycledPage page => page.link < pager.active.pageCount
  | _ => True

instance (pager : Pager) (op : Op) : Decidable (op.Linked pager) := by
  cases op <;> unfold Linked <;> infer_instance

end Op

/-- The pages that `kept` lists are the committed ones of an unpoisoned pager. -/
structure Holds (s : CachedPager) (kept : ℕ → Option Page) : Prop where
  coherent : s.Coherent
  kept : s.pager.poisoned = false → ∀ id page, kept id = some page → s.pager.view id = some page

/-- The pager of an unfinished operation: as it was or poisoned. -/
theorem Holds.refuse {p' : Pager} (h : s.Holds kept) (hrefused : Pager.Refused s.pager p') :
    Holds { s with pager := p' } kept := by
  rcases hrefused with rfl | hpoisoned
  · exact h
  · have hp : p'.poisoned ≠ false := by rw [hpoisoned]; decide
    exact ⟨⟨h.coherent.wf, fun hf => absurd hf hp, fun hf => absurd hf hp⟩, fun hf => absurd hf hp⟩

/-- A commit of a page that then can be read. -/
theorem Holds.commit {R : Set ℕ} {p' : Pager} (h : s.Holds kept) (hp : s.pager.poisoned = false)
    (hlive : p'.Live) (hkeeps : Pager.Keeps R s.pager p') (hR : ∀ id, id ≠ page.pageId → id ∈ R)
    (hview : p'.view page.pageId = some page) :
    Holds ⟨p', s.cache.insert page⟩ (Function.update kept page.pageId (some page)) where
  coherent :=
    { wf := h.coherent.wf.insert page
      live := fun _ => hlive
      cached := by
        intro _ id q hfind
        rcases PageCache.find_insert_of_eq_some hfind with ⟨rfl, rfl⟩ | ⟨hne, hold⟩
        · exact hview
        · exact hkeeps id (hR id hne) q (h.coherent.cached hp id q hold) }
  kept := by
    intro _ id q hq
    by_cases hid : id = page.pageId
    · subst hid
      rw [Function.update_self] at hq
      rw [← hq]
      exact hview
    · rw [Function.update_of_ne hid] at hq
      exact hkeeps id (hR id hid) q (h.kept hp id q hq)

/-- The root is published, or the pager is refused; the cache is left alone. -/
theorem Holds.publishRoot (h : s.Holds kept) {pager : Pager} (hpager : s.pager = pager) {encoded : ℕ}
    (hroot : encoded = rootNone ∨ superblockCount ≤ encoded ∧ encoded < pager.active.pageCount) 
    (hp : pager.poisoned = false) :
    Prog.wp (onPager (Pager.publishRoot pager encoded hroot)) (fun _ s' => s'.Holds kept)
      (fun _ s' => s'.Holds kept) s := by
  subst hpager
  have hlive := h.coherent.live hp
  rw [onPager, Prog.wp_zoom]
  refine Prog.wp_mono (Prog.wp_and (Pager.publishRoot_spec hlive hroot) (Pager.publishRoot_refused hroot))
    (fun _ p' hp' => ?_) fun _ p' hp' => h.refuse hp'.2
  have hkeeps := hp'.1.keeps Set.univ
  exact ⟨⟨h.coherent.wf, fun _ => hp'.1.live, fun _ id q hfind => hkeeps id trivial q (h.coherent.cached hp id q hfind)⟩,
    fun _ id q hq => hkeeps id trivial q (h.kept hp id q hq)⟩

/-- **One operation**: a page whose commit succeeds is kept, and a failed operation keeps what was there. -/
theorem Holds.run (h : s.Holds kept) {op : Op} :
    Prog.wp op.run (fun _ s' => op.Linked s.pager → s'.Holds (op.keep kept)) (fun _ s' => s'.Holds kept) s := by
  cases op with
  | commitNewPage page =>
    simp only [Op.run, CachedPager.commitNewPage, cacheInsert, onPager, Prog.wp_bind, Prog.wp_pure, Prog.wp_modify,
      Prog.wp_zoom]
    rw [Prog.wp_iff_forall]
    refine ⟨fun id p' hrun hlink => ?_, fun e p' hrun => h.refuse (Prog.wp_error (Pager.commitNewPage_refused page) hrun)⟩
    obtain ⟨hid, hp⟩ := Prog.wp_ok (Pager.commitNewPage_refused page) hrun
    obtain ⟨rfl, hadvances, -, hview⟩ :=
      Prog.wp_ok (Pager.commitNewPage_spec (h.coherent.live hp) hid hlink) hrun
    exact h.commit hp hadvances.live hadvances.keeps (fun _ _ => trivial) hview
  | commitRecycledPage page =>
    simp only [Op.run, CachedPager.commitRecycledPage, cacheInsert, onPager, Prog.wp_bind, Prog.wp_pure,
      Prog.wp_modify, Prog.wp_zoom]
    rw [Prog.wp_iff_forall]
    refine ⟨fun id p' hrun hlink => ?_,
      fun e p' hrun => h.refuse (Prog.wp_error (Pager.commitRecycledPage_refused page) hrun)⟩
    obtain ⟨hin, hp⟩ := Prog.wp_ok (Pager.commitRecycledPage_refused page) hrun
    simp only [Pager.Outside, not_or, not_lt, not_le] at hin
    -- All other pages are kept, so their cached copies stay right.
    have hR : page.pageId ∉ {id | id ≠ page.pageId} := fun hne => hne rfl
    obtain ⟨rfl, -, hadvances, hview⟩ :=
      Prog.wp_ok (Pager.commitRecycledPage_spec (h.coherent.live hp) hin.1 hin.2 hlink hR) hrun
    exact h.commit hp hadvances.live hadvances.keeps (fun _ hne => hne) hview
  | setRoot root =>
    simp only [Op.run, CachedPager.setRoot, Prog.wp_bind, Prog.wp_get, Prog.wp_ofExcept]
    refine ⟨fun _ husable => ?_, fun _ _ => h⟩
    have hp : s.pager.poisoned = false := Pager.ensureUsable_eq_ok.1 husable
    cases root with
    | none => exact Prog.wp_mono (h.publishRoot rfl _ hp) (fun _ _ h' _ => h') fun _ _ h' => h'
    | some id =>
      dsimp only
      by_cases hout : s.pager.Outside id
      · rw [dif_pos hout]
        exact h
      rw [dif_neg hout, Prog.wp_bind]
      obtain ⟨cache, hread, hcoherent⟩ := h.coherent.readPage id
      have hs : Holds { s with cache } kept := ⟨hcoherent, h.kept⟩
      unfold Prog.wp
      rw [hread]
      cases s.pager.readPage id with
      | error e => exact hs
      | ok page => exact Prog.wp_mono (hs.publishRoot rfl _ hp) (fun _ _ h' _ => h') fun _ _ h' => h'
  | readPage id =>
    obtain ⟨cache, hread, hcoherent⟩ := h.coherent.readPage id
    have hs : Holds { s with cache } kept := ⟨hcoherent, h.kept⟩
    simp only [Op.run, Prog.wp_bind, Prog.wp_pure]
    unfold Prog.wp
    rw [hread]
    cases s.pager.readPage id with
    | error e => exact hs
    | ok page => exact fun _ => hs

/-! ### Runs -/

/-- The pagers that creation, operations, failures and reopens lead to, with the page of each id whose commit
succeeded last. Each page that is committed has a committed link. A pager that is reopened after a failed write
starts with nothing kept, since it is unknown how much of the write is in the file. -/
inductive Reached : CachedPager → (ℕ → Option Page) → Prop
  | created {capacity : ℕ} {s : CachedPager} : createNew capacity = .ok s → Reached s fun _ => none
  | finished {s s' : CachedPager} {kept : ℕ → Option Page} {op : Op} :
    Reached s kept → op.run s = (.ok (), s') → op.Linked s.pager → Reached s' (op.keep kept)
  | failed {s s' : CachedPager} {kept : ℕ → Option Page} {op : Op} {e : BtreeError} :
    Reached s kept → op.run s = (.error e, s') → Reached s' kept
  | reopened {s s' : CachedPager} {kept : ℕ → Option Page} {capacity : ℕ} :
    Reached s kept → openFile s.pager.file capacity = .ok s' →
      Reached s' (if s.pager.poisoned then fun _ => none else kept)
  | faultAhead {s : CachedPager} {kept : ℕ → Option Page} (spec : FaultSpec) : Reached s kept →
    Reached { s with pager := { s.pager with faultSpec := some spec, faultTrace := [] } } kept

theorem capacity_pos {u : Unit} (h : validateCacheCapacity capacity = .ok u) : 0 < capacity := by
  unfold validateCacheCapacity at h
  split_ifs at h with hzero
  exact Nat.pos_of_ne_zero hzero

theorem openFile_eq_ok {file : PageFile} (h : openFile file capacity = .ok s) :
    0 < capacity ∧ ∃ pager, Pager.openFile file = .ok pager ∧ s = ⟨pager, .new capacity⟩ := by
  unfold openFile at h
  obtain ⟨_, hcapacity, h⟩ := Checked.bind_eq_ok.1 h
  obtain ⟨pager, hopen, h⟩ := Checked.bind_eq_ok.1 h
  exact ⟨capacity_pos hcapacity, pager, hopen, (Except.ok.inj h).symm⟩

/-- The file of a live pager is opened as it was left. -/
theorem Holds.reopen (h : s.Holds kept) (hp : s.pager.poisoned = false) (hcapacity : 0 < capacity) :
    ∃ s', openFile s.pager.file capacity = .ok s' ∧ s'.Holds kept := by
  obtain ⟨pager, hopen, hlive, -, -, hkeeps⟩ := (h.coherent.live hp).recovers Set.univ
  refine ⟨⟨pager, .new capacity⟩, ?_, .of_new hcapacity fun _ => hlive, ?_⟩
  · rw [openFile, validateCacheCapacity, if_neg hcapacity.ne', hopen]
    rfl
  · exact fun _ id page hkept => hkeeps id trivial page (h.kept hp id page hkept)

theorem Reached.holds (h : Reached s kept) : s.Holds kept := by
  induction h with
  | created h =>
    unfold createNew at h
    obtain ⟨_, hcapacity, h⟩ := Checked.bind_eq_ok.1 h
    obtain rfl := (Except.ok.inj h).symm
    exact ⟨.of_new (capacity_pos hcapacity) fun _ => Pager.live_createNew, fun _ _ _ hkept => by cases hkept⟩
  | finished _ hrun hlinked ih => exact Prog.wp_ok ih.run hrun hlinked
  | failed _ hrun ih => exact Prog.wp_error ih.run hrun
  | @reopened s kept capacity s' _ hopen ih =>
    obtain ⟨hcapacity, pager, hfile, rfl⟩ := openFile_eq_ok hopen
    by_cases hp : s.pager.poisoned = true
    · rw [if_pos hp]
      exact ⟨.of_new hcapacity fun _ => (Pager.openFile_live hfile).1, fun _ _ _ hkept => by cases hkept⟩
    · rw [if_neg hp]
      obtain ⟨s', hopen', hs'⟩ := ih.reopen (by simpa using hp) hcapacity
      rw [hopen] at hopen'
      obtain rfl := Except.ok.inj hopen'
      exact hs'
  | faultAhead spec _ ih =>
    refine ⟨⟨ih.coherent.wf, fun hp => ?_, ih.coherent.cached⟩, ih.kept⟩
    have hlive := ih.coherent.live hp
    exact ⟨hp, hlive.chosen, hlive.extent, hlive.tail, hlive.bound, fun _ _ => Nat.zero_le _⟩

/-- **The cache is transparent**, in every run that commits a page only when its link is committed: a read gives
what it would give with an empty cache; the pages whose commits succeeded last read back, also when the file is
opened again; the cache is within its capacity, and its order lists each cached page once. -/
theorem cache_transparent (h : Reached s kept) :
    (∀ id, (readPage id s).1 = (readPage id s.emptied).1) ∧
    (s.pager.poisoned = false → ∀ id page, kept id = some page → (readPage id s).1 = .ok page) ∧
    (s.pager.poisoned = false → ∀ capacity, 0 < capacity → ∃ s', openFile s.pager.file capacity = .ok s' ∧
      ∀ id page, kept id = some page → (readPage id s').1 = .ok page) ∧
    s.cache.len ≤ s.cache.capacity ∧ s.cache.order.Nodup ∧
    ∀ id, id ∈ s.cache.order ↔ (s.cache.pages.find id).isSome := by
  have hs := h.holds
  have hread : ∀ {s : CachedPager}, s.Holds kept → s.pager.poisoned = false →
      ∀ id page, kept id = some page → (readPage id s).1 = .ok page := by
    intro s hs hp id page hkept
    obtain ⟨cache, hread, -⟩ := hs.coherent.readPage id
    rw [hread]
    exact Pager.readPage_eq_ok.2 ⟨hp, hs.kept hp id page hkept⟩
  refine ⟨fun id => ?_, hread hs, fun hp capacity hcapacity => ?_, hs.coherent.wf.len_le, hs.coherent.wf.nodup,
    hs.coherent.wf.mem_order⟩
  · obtain ⟨cache, hcached, -⟩ := hs.coherent.readPage id
    obtain ⟨cache', hempty, -⟩ := hs.coherent.emptied.readPage id
    rw [hcached, hempty]
    rfl
  · obtain ⟨s', hopen, hs'⟩ := hs.reopen hp hcapacity
    obtain ⟨-, pager, hfile, rfl⟩ := openFile_eq_ok hopen
    exact ⟨_, hopen, hread hs' (Pager.openFile_live hfile).1.healthy⟩

/-- The first two pages of a file, a leaf and its left neighbour. -/
def firstLeaf : Page := ⟨2, .leaf, rootNone, [[1]], .inl rfl, by decide, by decide⟩

def secondLeaf : Page := ⟨3, .leaf, 2, [], .inr (by decide), by decide, by decide⟩

/-- A cache for one page gives up the first of two pages, and the page is read from the file. -/
theorem cache_transparent_evicted : ∃ s kept, Reached s kept ∧ s.cache.pages.find 2 = none ∧
    (readPage 2 s).1 = .ok firstLeaf := by
  have hfirst : Reached ⟨.createNew, .new 1⟩ _ := @Reached.created 1 _ rfl
  have hcommit : ∀ {op : Op} {s : CachedPager}, (op.run s).1 = .ok () → op.run s = (.ok (), (op.run s).2) :=
    fun h => by rw [← h]
  have hsecond := hfirst.finished (@hcommit (.commitNewPage firstLeaf) _ (by decide +kernel)) (by decide +kernel)
  have hthird := hsecond.finished (@hcommit (.commitNewPage secondLeaf) _ (by decide +kernel)) (by decide +kernel)
  exact ⟨_, _, hthird, by decide +kernel, (cache_transparent hthird).2.1 (by decide +kernel) 2 firstLeaf rfl⟩

/-- A leaf whose right sibling is no committed page. -/
def danglingLeaf : Page := ⟨2, .leaf, 999, [], .inr (by decide), by decide, by decide⟩

/-- **The cache is not transparent in general**: the leaf is built by the interface of pages and committed, it is
read from the cache, and without the cache it is rejected. -/
theorem cache_not_transparent :
    createNew 4 = .ok ⟨.createNew, .new 4⟩ ∧
    (do
      let page ← Page.new 2 .leaf
      page.setRightSibling (some 999)) = .ok danglingLeaf ∧
    (commitNewPage danglingLeaf ⟨.createNew, .new 4⟩).1 = .ok 2 ∧
    (readPage 2 (commitNewPage danglingLeaf ⟨.createNew, .new 4⟩).2).1 = .ok danglingLeaf ∧
    (readPage 2 (commitNewPage danglingLeaf ⟨.createNew, .new 4⟩).2.emptied).1 =
      .error (.corruption 8224
        "page 2 points to uncommitted linked page 999; committed page_count is 3") := by
  refine ⟨rfl, ?_, ?_, ?_, ?_⟩ <;> decide +kernel

end CachedPager
end DbLab.Btree
