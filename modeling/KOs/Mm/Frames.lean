import KOs.Common.List
import KOs.Data.Loop
import Mathlib.Algebra.Group.Nat.Defs

namespace KOs.Mm

open KOs.Common KOs.Data

/-! The page frame allocator of `mm/mm.c`: a binary buddy system over the array
`pages`, one `page_t` for each physical page frame.

A `page_t *` is the index of the frame.  The cells of `page->list` and the heads
`free_page_list[k]` share one memory of links: `Sum.inl k` is the head of order `k`,
`Sum.inr i` the cell of frame `i`.  `CONFIG_DEBUG_BUGCHECKS` is on, `CONFIG_DEBUG_MM` off.
-/

def pageSize : Nat := 0x1000
def numEntries : Nat := 1024
def maxOrder : Nat := 10

def pageCount : Nat := numEntries * numEntries

def pageFlagUsed : UInt8 := 0x1
def pageFlagPerm : UInt8 := 0x2
def pageFlagCache : UInt8 := 0x8

structure Page where
  addr : Nat
  flags : UInt8
  order : Nat
  compoundNum : Nat
deriving DecidableEq, Repr

structure Frames where
  pages : Nat → Page
  list : Links (Nat ⊕ Nat)
  pagesInUse : UInt32
  pagesAvaliable : UInt32

def Frames.setPage (state : Frames) (index : Nat) (page : Page) : Frames :=
  { state with pages := fun other => if other = index then page else state.pages other }

def Frames.setFlags (state : Frames) (index : Nat) (flags : UInt8) : Frames :=
  state.setPage index { state.pages index with flags }

def Frames.setOrder (state : Frames) (index order : Nat) : Frames :=
  state.setPage index { state.pages index with order }

def Frames.setCompoundNum (state : Frames) (index compoundNum : Nat) : Frames :=
  state.setPage index { state.pages index with compoundNum }

def getOrderIdx (index order : Nat) : Nat := index / 2 ^ order

def isFree (page : Page) : Bool :=
  page.flags &&& pageFlagUsed == 0 && page.flags &&& pageFlagPerm == 0

def isMaster (state : Frames) (page : Nat) : Bool :=
  getOrderIdx page (state.pages page).order % 2 == 0

def isSubblockMaster (state : Frames) (page : Nat) : Bool :=
  (state.pages page).order == 0 || getOrderIdx page ((state.pages page).order - 1) % 2 == 0

def getBuddy (state : Frames) (page : Nat) : Nat :=
  if isMaster state page then page + 2 ^ (state.pages page).order
  else page - 2 ^ (state.pages page).order

def getMaster (state : Frames) (page : Nat) : Nat :=
  if isMaster state page then page else getBuddy state page

def addToFreelists (page : Nat) (state : Frames) : Except Fault Frames := do
  bugOn (!isFree (state.pages page)) "src/mm/mm.c" 105
  bugOn (!isSubblockMaster state page) "src/mm/mm.c" 106
  return { state with
    list := listAdd (.inr page) (.inl (state.pages page).order) state.list }

def splitBlock (master : Nat) (state : Frames) : Except Fault (Frames × Nat) := do
  bugOn (!isSubblockMaster state master) "src/mm/mm.c" 113
  bugOn ((state.pages master).order == 0) "src/mm/mm.c" 114
  let state := state.setOrder master ((state.pages master).order - 1)
  let slave := getBuddy state master
  bugOn ((state.pages master).order != (state.pages slave).order) "src/mm/mm.c" 120
  bugOn (!isFree (state.pages master)) "src/mm/mm.c" 121
  bugOn (!isFree (state.pages slave)) "src/mm/mm.c" 122
  return (state, slave)

def joinBlock (page : Nat) (state : Frames) : Except Fault (Frames × Nat) := do
  let master := getMaster state page
  let buddy := getBuddy state master
  bugOn ((state.pages master).order != (state.pages (getBuddy state master)).order) "src/mm/mm.c" 133
  bugOn ((state.pages master).order == maxOrder) "src/mm/mm.c" 134
  bugOn (!isFree (state.pages master)) "src/mm/mm.c" 136
  bugOn (!isFree (state.pages buddy)) "src/mm/mm.c" 137
  return (state.setOrder master ((state.pages master).order + 1), master)

/-- The loop of `trim_block`; every iteration lowers the order of `block`. -/
def trimLoop : Nat → Nat → Nat → Frames → Except Fault Frames
  | 0, _, _, _ => .error .unfinished
  | bound + 1, block, actual, state =>
      let blockSize := 2 ^ (state.pages block).order
      if actual = 0 then .error (.bug "src/mm/mm.c" 185)
      else if actual = blockSize then .ok state
      else do
        bugOn ((state.pages block).order == 0) "src/mm/mm.c" 163
        bugOn (!isFree (state.pages block)) "src/mm/mm.c" 165
        bugOn (blockSize < actual) "src/mm/mm.c" 167
        let (state, buddy) ← splitBlock block state
        if actual ≤ blockSize / 2 then
          bugOn (!isFree (state.pages buddy)) "src/mm/mm.c" 174
          let state ← addToFreelists buddy state
          trimLoop bound block actual state
        else
          trimLoop bound buddy (actual ^^^ 2 ^ (state.pages block).order) state

def trimBlock (block actual : Nat) (state : Frames) : Except Fault Frames := do
  bugOn (actual == 0) "src/mm/mm.c" 149
  bugOn (!isFree (state.pages block)) "src/mm/mm.c" 150
  trimLoop (maxOrder + 1) block actual state

/-- The loop condition of `ripple_join`, for `buddy = get_buddy(block)`. -/
def rippleCondition : Frames × Nat → Bool
  | (state, block) =>
      isFree (state.pages (getBuddy state block)) &&
        (state.pages (getBuddy state block)).order == (state.pages block).order &&
        (state.pages block).order < maxOrder

def rippleBody : Frames × Nat → Except Fault (Frames × Nat)
  | (state, block) => do
      let state := { state with list := listRm (.inr (getBuddy state block)) state.list }
      let (state, block) ← joinBlock block state
      bugOn (!isFree (state.pages block)) "src/mm/mm.c" 207
      return (state, block)

def rippleJoin (page : Nat) (state : Frames) : Except Fault Frames := do
  bugOn (!isFree (state.pages page)) "src/mm/mm.c" 192
  let (state, block) ←
    whileLoop rippleCondition rippleBody .unfinished (maxOrder + 1) (state, page)
  addToFreelists block state

/-- The order `do_alloc_pages` starts its search at. -/
def targetOrder (number : Nat) : Nat :=
  if number ^^^ 2 ^ Nat.log2 number ≠ 0 then Nat.log2 number + 1 else Nat.log2 number

def claimUsed (block index : Nat) (state : Frames) : Except Fault Frames := do
  bugOn ((state.pages (block + index)).flags != 0) "src/mm/mm.c" 227
  return state.setFlags (block + index) ((state.pages (block + index)).flags ||| pageFlagUsed)

def doAllocPages (number : Nat) (state : Frames) : Except Fault (Frames × Nat) :=
  let orders := List.range' (targetOrder number) (maxOrder + 1 - targetOrder number)
  match orders.find? (fun order => !listEmpty state.list (.inl order)) with
  | none =>
      .error (.panicf "OOM! wanted %X (%X/%X)"
        [number, state.pagesInUse.toNat, state.pagesAvaliable.toNat])
  | some order =>
      match listFirst state.list (.inl order) with
      | .inl _ => .error .strayEntry
      | .inr block => do
          bugOn ((state.pages block).flags &&& pageFlagUsed != 0) "src/mm/mm.c" 222
          let state := { state with list := listRm (.inr block) state.list }
          let state ← trimBlock block number state
          let state ← forLoop (claimUsed block) number state
          return ({ state with pagesInUse := state.pagesInUse + UInt32.ofNat number }, block)

def clearFlags (page index : Nat) (state : Frames) : Except Fault Frames := do
  bugOn ((state.pages (page + index)).flags &&& pageFlagPerm != 0) "src/mm/mm.c" 288
  bugOn ((state.pages (page + index)).flags &&& pageFlagUsed == 0) "src/mm/mm.c" 289
  return state.setFlags (page + index) 0

/-- The part of `free_page` before its `ripple_join`. -/
def releaseFlags (page : Nat) (state : Frames) : Except Fault Frames :=
  let size := 2 ^ (state.pages page).order
  forLoop (clearFlags page) size
    { state with pagesInUse := state.pagesInUse - UInt32.ofNat size }

def freePage (page : Nat) (state : Frames) : Except Fault Frames := do
  let state ← releaseFlags page state
  rippleJoin page state

def freePagesLoop : Nat → Nat → Nat → Frames → Except Fault Frames
  | 0, _, _, _ => .error .unfinished
  | bound + 1, master, num, state =>
      if num = 0 then .ok state
      else do
        let blockSize := 2 ^ Nat.log2 num
        bugOn (num == (state.pages master).order) "src/mm/mm.c" 305
        let state ← freePage master state
        freePagesLoop bound (master + blockSize) (num ^^^ blockSize) state

def freePages (pages num : Nat) (state : Frames) : Except Fault Frames :=
  freePagesLoop (num + 1) pages num (state.setCompoundNum pages 0)

/-- The first statement of `claim_page`. -/
def clearPerm (index : Nat) (state : Frames) : Frames :=
  state.setFlags index ((state.pages index).flags &&& ~~~ pageFlagPerm)

def claimPage (index : Nat) (state : Frames) : Except Fault Frames := do
  let state ← freePage index (clearPerm index state)
  return { state with pagesAvaliable := state.pagesAvaliable + 1 }

/-- The loop of `mm_init` over the heads, the first `count` of them. -/
def initFreeLists (count : Nat) (list : Links (Nat ⊕ Nat)) : Links (Nat ⊕ Nat) :=
  (List.range count).foldl (fun list order => listInit (.inl order) list) list

/-- The allocator as `mm_init` leaves it before `find_free_pages`; `list` is what
the memory of the list cells held before. -/
def mmInit (list : Links (Nat ⊕ Nat)) : Frames where
  pages _ := { addr := 0, flags := pageFlagPerm ||| pageFlagUsed, order := 0, compoundNum := 0 }
  list := initFreeLists (maxOrder + 1) list
  pagesInUse := 0
  pagesAvaliable := 0

end KOs.Mm
