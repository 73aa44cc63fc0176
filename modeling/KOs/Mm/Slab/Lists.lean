import KOs.Mm.Slab.Pages

namespace KOs.Mm

open KOs.Arch KOs.Common KOs.Data Function CacheList

/-! The three lists of every cache, and what `cache_alloc` and `cache_free` do to
them.  `chain` gives the free objects of each page. -/

abbrev PageLists := CacheList × CacheRef → List Nat

def headsOf (known : Set CacheRef) : Set (CacheList × CacheRef) := {head | head.2 ∈ known}

structure SlabsSound (slabs : Slabs) (known : Set CacheRef) (lists : PageLists)
    (chain : Nat → List Nat) : Prop where
  links : slabs.list.Represents (headsOf known) lists
  fits : ∀ c ∈ known, (slabs.caches c).Fits
  page : ∀ list c base, base ∈ lists (list, c) →
    PageSound (slabs.caches c) c base (slabs.pages base) (chain base)
  kind : ∀ list c base, base ∈ lists (list, c) →
    list = listFor (chain base).length (slabs.caches c).max

def Owns (lists : PageLists) (c : CacheRef) (base : Nat) : Prop := ∃ list, base ∈ lists (list, c)

variable {list : CacheList}
variable {slabs : Slabs} {known : Set CacheRef} {lists : PageLists} {chain : Nat → List Nat} {c : CacheRef} {base : Nat}
variable (sound : SlabsSound slabs known lists chain)
variable {after : Slabs} {moved : PageLists}

section Sound

section

variable (owns : Owns lists c base)
include sound owns

theorem SlabsSound.known_of_owns : c ∈ known := by
  obtain ⟨list, mem⟩ := owns
  exact sound.links.head_of_mem mem

theorem SlabsSound.page_of_owns :
    PageSound (slabs.caches c) c base (slabs.pages base) (chain base) := by
  obtain ⟨list, mem⟩ := owns
  exact sound.page list c base mem

theorem SlabsSound.mem_list :
    base ∈ lists (listFor (chain base).length (slabs.caches c).max, c) := by
  obtain ⟨list, mem⟩ := owns
  exact sound.kind list c base mem ▸ mem

theorem SlabsSound.owner_unique {other : CacheRef} (owns' : Owns lists other base) : c = other := by
  obtain ⟨list, mem⟩ := owns
  obtain ⟨list', member'⟩ := owns'
  exact congrArg Prod.snd (sound.links.separate mem member')

theorem SlabsSound.slot_unique {other : CacheRef} {base' i j : Nat} (owns' : Owns lists other base')
    (inRange : i < (slabs.caches c).max) (inRange' : j < (slabs.caches other).max)
    (same : slotAddr (slabs.caches c) base i = slotAddr (slabs.caches other) base' j) :
    c = other ∧ base = base' ∧ i = j := by
  have fits := sound.fits c (sound.known_of_owns owns)
  have fits' := sound.fits other (sound.known_of_owns owns')
  have samePage : base = base' := by
    rw [← memToCachePage_slot fits (sound.page_of_owns owns).aligned inRange, same,
      memToCachePage_slot fits' (sound.page_of_owns owns').aligned inRange']
  subst samePage
  obtain rfl := sound.owner_unique owns owns'
  refine ⟨rfl, rfl, ?_⟩
  by_contra ne
  have apart := slot_disjoint (slabs.caches c) base ne
  have pos := fits.size
  omega

end

def MovedTo (head : CacheList × CacheRef) (base : Nat) (lists after : PageLists) : Prop :=
  ∀ other b, b ∈ after other ↔ if b = base then other = head else b ∈ lists other

include sound

theorem MovedTo.owns_iff {after : PageLists}
    (moved : MovedTo (list, c) base lists after) (owns : Owns lists c base) (other : CacheRef) (b : Nat) :
    Owns after other b ↔ Owns lists other b := by
  by_cases same : b = base
  · subst same
    constructor
    · intro ⟨kind, mem⟩
      have target := (moved _ b).mp mem
      rw [if_pos rfl] at target
      cases target
      exact owns
    · intro owns'
      refine ⟨list, (moved _ b).mpr ?_⟩
      rw [if_pos rfl, sound.owner_unique owns owns']
  · refine exists_congr fun kind => ?_
    rw [moved, if_neg same]

theorem SlabsSound.replace {newChain : List Nat} (links : after.list.Represents (headsOf known) moved)
    (placed : MovedTo (listFor newChain.length (slabs.caches c).max, c) base lists moved)
    (caches : after.caches = slabs.caches)
    (others : ∀ b ≠ base, after.pages b = slabs.pages b)
    (page : PageSound (slabs.caches c) c base (after.pages base) newChain) :
    SlabsSound after known moved (update chain base newChain) := by
  have pages : ∀ list d b, b ∈ moved (list, d) →
      PageSound (slabs.caches d) d b (after.pages b) (update chain base newChain b) ∧
        list = listFor (update chain base newChain b).length (slabs.caches d).max := by
    intro list d b mem
    have target := (placed (list, d) b).mp mem
    by_cases same : b = base
    · subst same
      rw [if_pos rfl] at target
      cases target
      rw [update_self]
      exact ⟨page, rfl⟩
    · rw [if_neg same] at target
      rw [update_of_ne same, others b same]
      exact ⟨sound.page list d b target, sound.kind list d b target⟩
  rw [← caches] at pages
  exact ⟨links, caches ▸ sound.fits, fun list d b mem => (pages list d b mem).1,
    fun list d b mem => (pages list d b mem).2⟩

theorem SlabsSound.stays (mem : base ∈ lists (list, c)) :
    MovedTo (list, c) base lists lists := by
  intro other b
  by_cases same : b = base
  · subst same
    rw [if_pos rfl]
    constructor
    · exact fun inOther => sound.links.separate inOther mem
    · intro here
      rw [here]
      exact mem
  · rw [if_neg same]

end Sound

@[simp] theorem Slabs.setPage_same (slabs : Slabs) (base : Nat) (page : CachePage) :
    (slabs.setPage base page).pages base = page :=
  if_pos rfl

theorem Slabs.setPage_other {b : Nat} {page : CachePage} (ne : b ≠ base) :
    (slabs.setPage base page).pages b = slabs.pages b :=
  if_neg ne

structure PageChanged (slabs after : Slabs) (known : Set CacheRef) (lists : PageLists)
    (chain : Nat → List Nat) (base : Nat) (newChain : List Nat) : Prop where
  sound : ∃ moved, SlabsSound after known moved (Function.update chain base newChain) ∧
    ∀ c b, Owns moved c b ↔ Owns lists c b
  caches : after.caches = slabs.caches
  kallocCache : after.kallocCache = slabs.kallocCache

variable {others : List Nat}
variable {i : Nat}

section Take

variable {rest : List Nat}

section

include sound

theorem SlabsSound.listEmpty_iff (inside : c ∈ known)
    (list : CacheList) : slabs.listEmpty list c = true ↔ lists (list, c) = [] :=
  Common.listEmpty_iff sound.links (show (list, c) ∈ headsOf _ from inside)

theorem SlabsSound.listEmpty_false (inside : c ∈ known) (content : lists (list, c) = base :: others) :
    slabs.listEmpty list c = false := by
  cases test : slabs.listEmpty list c with
  | false => rfl
  | true =>
    rw [(sound.listEmpty_iff inside list).mp test] at content
    contradiction

theorem SlabsSound.listFirst_eq (content : lists (list, c) = base :: others) :
    slabs.listFirst list c = .ok base := by
  rw [Slabs.listFirst, Common.listFirst_eq sound.links content]

end

theorem nextObject_eq (page : PageSound (slabs.caches c) c base (slabs.pages base) (i :: rest))
    (fits : (slabs.caches c).Fits) :
    nextObject c base slabs = slotAddr (slabs.caches c) base i := by
  obtain ⟨first, _⟩ := page.pop fits
  obtain ⟨_, upper⟩ := slot_inside base fits (page.bounded i List.mem_cons_self)
  have pos := fits.size
  have below := page.below
  rw [nextObject, page.mem, first]
  apply Nat.mod_eq_of_lt
  simp only [slotAddr] at upper
  omega

def popFree (base : Nat) (slabs : Slabs) : Slabs :=
  slabs.setPage base
    { slabs.pages base with
      left := ((slabs.pages base).left + 2 ^ 32 - 1) % 2 ^ 32
      free := (slabs.pages base).entries (slabs.pages base).free }

section

variable (page : PageSound (slabs.caches c) c base (slabs.pages base) (i :: rest))
include page

theorem cacheDoAlloc_eq (fits : (slabs.caches c).Fits) : cacheDoAlloc base slabs = .ok (popFree base slabs) := by
  obtain ⟨first, _⟩ := page.pop fits
  have small := max_lt fits
  have inRange := page.bounded i List.mem_cons_self
  have notEnd : ((slabs.pages base).free == freelistEnd) = false := by
    apply beq_eq_false_iff_ne.mpr
    simp only [freelistEnd, pageSize] at *
    omega
  rw [cacheDoAlloc, notEnd, bugOn_false]
  rfl

theorem popFree_left (fits : (slabs.caches c).Fits) : ((popFree base slabs).pages base).left = rest.length := by
  rw [popFree, Slabs.setPage_same]
  exact (page.pop fits).2.left

end

section

include sound

theorem SlabsSound.taken (owns : Owns lists c base)
    (content : chain base = i :: rest) (links : after.list.Represents (headsOf known) moved)
    (placed : MovedTo (listFor rest.length (slabs.caches c).max, c) base lists moved)
    (pages : after.pages = (popFree base slabs).pages)
    (caches : after.caches = slabs.caches) (kallocCache : after.kallocCache = slabs.kallocCache) :
    PageChanged slabs after known lists chain base rest := by
  have page := sound.page_of_owns owns
  rw [content] at page
  have fits := sound.fits c (sound.known_of_owns owns)
  refine ⟨⟨moved, sound.replace links placed caches ?_ ?_, placed.owns_iff sound owns⟩, caches, kallocCache⟩
  · intro b ne
    rw [pages, popFree, Slabs.setPage_other ne]
  · rw [pages, popFree, Slabs.setPage_same]
    exact (page.pop fits).2

theorem SlabsSound.taken_moved (inside : c ∈ known) {target : CacheList} (mem : base ∈ lists (list, c))
    (content : chain base = i :: rest) (fitting : listFor rest.length (slabs.caches c).max = target) :
    PageChanged slabs (((popFree base slabs).listRm base).listAdd base target c) known lists chain base rest := by
  obtain ⟨moved, links, placed⟩ := listMove_placed sound.links mem (show (target, c) ∈ headsOf known from inside)
  exact sound.taken ⟨_, mem⟩ content links (fitting ▸ placed) rfl rfl rfl

theorem chain_cons (mem : base ∈ lists (list, c)) (room : list ≠ .fullList) :
    ∃ i rest, chain base = i :: rest ∧ rest.length ≠ (slabs.caches c).max ∧
      PageSound (slabs.caches c) c base (slabs.pages base) (i :: rest) := by
  have page := sound.page list c base mem
  cases content : chain base with
  | nil =>
    have full := sound.kind _ _ _ mem
    rw [content] at full
    exact absurd full room
  | cons i rest =>
    rw [content] at page
    exact ⟨i, rest, rfl, Nat.ne_of_lt page.left_le, page⟩

theorem cacheTake_partly (inside : c ∈ known) (listed : lists (.partialList, c) = base :: others) :
    ∃ after i rest, cacheTake c slabs = .ok (after, slotAddr (slabs.caches c) base i) ∧
      chain base = i :: rest ∧ PageChanged slabs after known lists chain base rest := by
  have fits := sound.fits c inside
  have mem : base ∈ lists (.partialList, c) := listed ▸ List.mem_cons_self
  obtain ⟨i, rest, content, notAll, page⟩ := chain_cons sound mem nofun
  have taken : cacheTake c slabs = .ok
      (if rest.length = 0 then ((popFree base slabs).listRm base).listAdd base .fullList c
        else popFree base slabs, slotAddr (slabs.caches c) base i) := by
    rw [cacheTake, sound.listEmpty_false inside listed, Bool.not_false, if_pos rfl,
      sound.listFirst_eq listed, ← popFree_left page fits, ← nextObject_eq page fits]
    show (cacheDoAlloc base slabs).bind _ = _
    rw [cacheDoAlloc_eq page fits]
    rfl
  refine ⟨_, i, rest, taken, content, ?_⟩
  by_cases last : rest.length = 0
  · rw [if_pos last]
    exact sound.taken_moved inside mem content (by rw [last]; rfl)
  · rw [if_neg last]
    have fitting : listFor rest.length (slabs.caches c).max = _ := listFor_partly.mpr ⟨last, notAll⟩
    exact sound.taken ⟨_, mem⟩ content sound.links (fitting ▸ sound.stays mem) rfl rfl rfl

theorem cacheTake_empty (inside : c ∈ known) (none : lists (.partialList, c) = [])
    (listed : lists (.emptyList, c) = base :: others) :
    ∃ after i rest, cacheTake c slabs = .ok (after, slotAddr (slabs.caches c) base i) ∧
      chain base = i :: rest ∧ PageChanged slabs after known lists chain base rest := by
  have fits := sound.fits c inside
  have mem : base ∈ lists (.emptyList, c) := listed ▸ List.mem_cons_self
  obtain ⟨i, rest, content, notAll, page⟩ := chain_cons sound mem nofun
  have taken : cacheTake c slabs = .ok (((popFree base slabs).listRm base).listAdd base
        (if rest.length = 0 then .fullList else .partialList) c, slotAddr (slabs.caches c) base i) := by
    rw [cacheTake, (sound.listEmpty_iff inside .partialList).mpr none, Bool.not_true,
      if_neg Bool.false_ne_true, sound.listEmpty_false inside listed, Bool.not_false,
      if_pos rfl, sound.listFirst_eq listed, ← nextObject_eq page fits]
    show (cacheDoAlloc base slabs).bind _ = _
    rw [cacheDoAlloc_eq page fits, ← popFree_left page fits]
    show Except.ok (if ((popFree base slabs).pages base).left = 0 then _ else _, _) = _
    split <;> rfl
  refine ⟨_, i, rest, taken, content, sound.taken_moved inside mem content ?_⟩
  by_cases last : rest.length = 0
  · rw [if_pos last, last]
    rfl
  · rw [if_neg last]
    exact listFor_partly.mpr ⟨last, notAll⟩

theorem cacheTake_exists (inside : c ∈ known) (room : lists (.partialList, c) ≠ [] ∨ lists (.emptyList, c) ≠ []) :
    ∃ after base i rest, cacheTake c slabs = .ok (after, slotAddr (slabs.caches c) base i) ∧
      Owns lists c base ∧ chain base = i :: rest ∧
      PageChanged slabs after known lists chain base rest := by
  cases partly : lists (.partialList, c) with
  | cons base =>
    obtain ⟨after, i, rest, result⟩ := cacheTake_partly sound inside partly
    exact ⟨after, base, i, rest, result.1, ⟨_, partly ▸ List.mem_cons_self⟩, result.2⟩
  | nil =>
    cases whole : lists (.emptyList, c) with
    | cons base =>
      obtain ⟨after, i, rest, result⟩ := cacheTake_empty sound inside partly whole
      exact ⟨after, base, i, rest, result.1, ⟨_, whole ▸ List.mem_cons_self⟩, result.2⟩
    | nil =>
      rcases room with notPartial | notEmpty
      · exact absurd partly notPartial
      · exact absurd whole notEmpty

end

end Take

theorem index_of_slot {page : CachePage} {free : List Nat}
    (sound : PageSound (slabs.caches c) c base page free) (fits : (slabs.caches c).Fits)
    (inRange : i < (slabs.caches c).max) :
    (slotAddr (slabs.caches c) base i + 2 ^ 32 - page.mem) % 2 ^ 32 / (slabs.caches c).size = i := by
  obtain ⟨_, upper⟩ := slot_inside base fits inRange
  have pos := fits.size
  have below := sound.below
  have offset : (slotAddr (slabs.caches c) base i + 2 ^ 32 - page.mem) % 2 ^ 32 = i * (slabs.caches c).size := by
    rw [sound.mem]
    simp only [slotAddr] at *
    omega
  rw [offset, Nat.mul_div_cancel _ (by omega)]

section

variable (sound : SlabsSound slabs known lists chain)
include sound

theorem cacheFree_exists (owns : Owns lists c base) (inRange : i < (slabs.caches c).max) (used : i ∉ chain base) :
    PageChanged slabs (cacheFree c (slotAddr (slabs.caches c) base i) slabs) known lists chain base
      (i :: chain base) := by
  have inside := sound.known_of_owns owns
  have fits := sound.fits c inside
  have page := sound.page_of_owns owns
  have mem := sound.mem_list owns
  have count := page.push_length inRange used
  have left := page.left
  -- Wherever the page goes, it goes to the list of its new count, and its header
  -- is only changed afterwards.
  have settle : ∀ moved : Slabs, moved.pages = slabs.pages → moved.caches = slabs.caches →
      moved.kallocCache = slabs.kallocCache →
      (∃ placement, moved.list.Represents (headsOf known) placement ∧
        MovedTo (listFor ((chain base).length + 1) (slabs.caches c).max, c) base lists placement) →
      PageChanged slabs (cacheDoFree base
        ((slotAddr (slabs.caches c) base i + 2 ^ 32 - (moved.pages base).mem) % 2 ^ 32 /
          (slabs.caches c).size) moved) known lists chain base (i :: chain base) := by
    intro moved pages caches kallocCache ⟨placement, links, placed⟩
    rw [pages, index_of_slot page fits inRange]
    refine ⟨⟨placement, sound.replace links placed caches ?_ ?_, placed.owns_iff sound owns⟩, caches, kallocCache⟩
    · intro b ne
      rw [cacheDoFree, Slabs.setPage_other ne, pages]
    · rw [cacheDoFree, Slabs.setPage_same, pages]
      exact page.push fits inRange used
  rw [cacheFree, memToCachePage_slot fits page.aligned inRange, left]
  by_cases whole : (chain base).length + 1 = (slabs.caches c).max
  · rw [if_pos whole]
    apply settle ((slabs.listRm base).listAdd base .emptyList c) rfl rfl rfl
    rw [(listFor_empty fits.max).mpr whole]
    exact listMove_placed sound.links mem (show (emptyList, c) ∈ headsOf _ from inside)
  · have target : listFor _ (slabs.caches c).max = .partialList :=
      listFor_partly.mpr ⟨Nat.succ_ne_zero _, whole⟩
    rw [if_neg whole]
    by_cases full : (chain base).length = 0
    · rw [if_pos full]
      apply settle ((slabs.listRm base).listAdd base .partialList c) rfl rfl rfl
      rw [target]
      exact listMove_placed sound.links mem (show (partialList, c) ∈ headsOf _ from inside)
    · rw [if_neg full]
      apply settle _ rfl rfl rfl
      have partly : listFor (chain base).length (slabs.caches c).max = .partialList :=
        listFor_partly.mpr ⟨full, by omega⟩
      rw [target]
      rw [partly] at mem
      exact ⟨lists, sound.links, sound.stays mem⟩

/-- A page nobody owns becomes a page of `c` with all its objects free. -/
theorem initCachePage_exists (inside : c ∈ known) (fresh : ∀ head, base ∉ lists head) (aligned : pageSize ∣ base)
    (below : base + pageSize ≤ 2 ^ 32) (frame : Nat) :
    ∃ after grown, initCachePage c base frame slabs = .ok after ∧ SlabsSound after known grown
        (update chain base (List.range (slabs.caches c).max)) ∧
      (∀ d b, Owns grown d b ↔ Owns lists d b ∨ d = c ∧ b = base) ∧
      grown (.emptyList, c) ≠ [] ∧ after.caches = slabs.caches ∧
      after.kallocCache = slabs.kallocCache := by
  have fits := sound.fits c inside
  obtain ⟨grown, links, placed⟩ := listAdd_placed sound.links
    (show (emptyList, c) ∈ headsOf _ from inside) fresh
  have listed : base ∈ grown (.emptyList, c) := (placed _ base).mpr (by rw [if_pos rfl])
  have room := fits.room
  have freelist : (base + sizeofCachePage) % 2 ^ 32 = base + sizeofCachePage := by
    simp only [sizeofCachePage, pageSize] at *
    omega
  have mem : (base + sizeofCachePage + 4 * (slabs.caches c).max) % 2 ^ 32 =
      base + sizeofCachePage + 4 * (slabs.caches c).max := by
    have objects := Nat.mul_le_mul_left (slabs.caches c).max fits.size
    rw [Nat.mul_add] at room
    omega
  have notZero : ((slabs.caches c).max == 0) = false := by
    have pos := fits.max
    exact beq_eq_false_iff_ne.mpr (by omega)
  refine ⟨((slabs.setPage base
      { slabs.pages base with cache := c, page := frame, left := (slabs.caches c).max }).listAdd base
      .emptyList c).setPage base
      { cache := c, left := (slabs.caches c).max, free := 0, freelist := base + sizeofCachePage,
        entries := freshEntries (slabs.caches c).max (slabs.pages base).entries,
        mem := base + sizeofCachePage + 4 * (slabs.caches c).max, page := frame },
    grown, ?_, ?_, ?_, ?_, rfl, rfl⟩
  · simp only [initCachePage, Slabs.listAdd, Slabs.setPage_same, notZero, bugOn_false, freelist, mem]
    rfl
  · have target : listFor (List.range (slabs.caches c).max).length (slabs.caches c).max = .emptyList := by
      rw [List.length_range]
      exact (listFor_empty fits.max).mpr rfl
    refine sound.replace (c := c) ?_ ?_ ?_ ?_ ?_
    · exact links
    · rw [target]
      exact placed
    · rfl
    · intro b ne
      simp [Slabs.setPage, Slabs.listAdd, ne]
    · rw [Slabs.setPage_same]
      exact ⟨rfl, aligned, below, rfl, freshEntries_threads _ fits.max, List.nodup_range,
        fun i member => List.mem_range.mp member, by rw [List.length_range]⟩
  · intro d b
    constructor
    · rintro ⟨list, member⟩
      have target := (placed (list, d) b).mp member
      by_cases same : b = base
      · rw [if_pos same] at target
        exact .inr ⟨congrArg Prod.snd target, same⟩
      · rw [if_neg same] at target
        exact .inl ⟨list, target⟩
    · intro either
      rcases either with ⟨list, member⟩ | ⟨rfl, rfl⟩
      · have ne : b ≠ base := fun same => fresh (list, d) (same ▸ member)
        exact ⟨list, (placed _ b).mpr (by rw [if_neg ne]; exact member)⟩
      · exact ⟨_, listed⟩
  · intro none
    rw [none] at listed
    contradiction

theorem cacheInitialised {new : CacheRef} {cache : Cache} (unknown : new ∉ known) (fits : cache.Fits) :
    SlabsSound
      { slabs with
        caches := fun other => if other = new then cache else slabs.caches other
        list := listInit (.inl (.fullList, new))
          (listInit (.inl (.partialList, new)) (listInit (.inl (.emptyList, new)) slabs.list)) }
      (insert new known) lists chain := by
  have heads : insert (fullList, new) (insert (partialList, new)
      (insert (emptyList, new) (headsOf known))) = headsOf (insert new known) := by
    ext ⟨list, d⟩
    simp only [headsOf, Set.mem_insert_iff, Set.mem_ofPred_eq, Prod.mk.injEq]
    cases list <;> simp
  have nothing : ∀ list, lists (list, new) = [] := fun list => sound.links.outside _ unknown
  have same : ∀ list, update lists (list, new) [] = lists := by
    intro list
    rw [← nothing list]
    exact update_eq_self _ _
  have links := listInit_represents (listInit_represents (listInit_represents sound.links
    (emptyList, new)) (partialList, new)) (fullList, new)
  rw [heads, same, same, same] at links
  have older : ∀ list d b, b ∈ lists (list, d) → d ≠ new := by
    intro list d b mem isNew
    rw [isNew, nothing list] at mem
    contradiction
  refine ⟨links, ?_, ?_, ?_⟩
  · intro d mem
    show Cache.Fits (if d = new then cache else slabs.caches d)
    by_cases isNew : d = new
    · rw [if_pos isNew]
      exact fits
    · rw [if_neg isNew]
      exact sound.fits d (mem.resolve_left isNew)
  · intro list d b mem
    show PageSound (if d = new then cache else slabs.caches d) d b (slabs.pages b) (chain b)
    rw [if_neg (older list d b mem)]
    exact sound.page list d b mem
  · intro list d b mem
    show list = listFor (chain b).length (if d = new then cache else slabs.caches d).max
    rw [if_neg (older list d b mem)]
    exact sound.kind list d b mem

end

end KOs.Mm
