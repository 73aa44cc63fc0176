import Mathlib.Data.Set.Lattice
import Mathlib.Data.List.Perm.Basic
import Mathlib.Order.CompletePartialOrder

namespace KOs.Data

/-! What an allocator is for, whatever it hands out.

Cells are reserved, free, or in the region of a live allocation.  An allocation
takes free cells and is given back once; reserved cells can only be supplied.
-/

universe u v

structure Pool (κ : Type u) (α : Type v) where
  reserved : Set α
  free : Set α
  live : List κ

namespace Pool

variable {κ : Type u} {α : Type v} [BEq κ] [LawfulBEq κ] (region : κ → Set α)

inductive Step : Pool κ α → Pool κ α → Prop
  | supply {pool : Pool κ α} {cells : Set α} (inside : cells ⊆ pool.reserved) :
      Step pool { pool with reserved := pool.reserved \ cells, free := pool.free ∪ cells }
  | take {pool : Pool κ α} {key : κ} (inside : region key ⊆ pool.free) :
      Step pool { pool with free := pool.free \ region key, live := key :: pool.live }
  | give {pool : Pool κ α} {key : κ} (member : key ∈ pool.live) :
      Step pool { pool with free := pool.free ∪ region key, live := pool.live.erase key }

/-- No cell has two owners. -/
structure Exclusive (pool : Pool κ α) : Prop where
  reserved : ∀ a ∈ pool.reserved, a ∉ pool.free
  free : ∀ key ∈ pool.live, ∀ a ∈ region key, a ∉ pool.free ∧ a ∉ pool.reserved
  live : pool.live.Pairwise (fun first second => Disjoint (region first) (region second))

variable {pool : Pool κ α} {key other : κ}

theorem Exclusive.apart {region : κ → Set α} (exclusive : Exclusive region pool) (mem : key ∈ pool.live) (remaining : other ∈ pool.live.erase key) :
    Disjoint (region other) (region key) := by
  have symmetric : ∀ {first second : κ}, Disjoint (region first) (region second) →
      Disjoint _ _ := fun disjoint => disjoint.symm
  have cycled := ((List.perm_cons_erase mem).pairwise_iff symmetric).mp exclusive.live
  exact (List.pairwise_cons.mp cycled).1 _ remaining |>.symm

theorem Exclusive.key_unique {region : κ → Set α} (exclusive : Exclusive region pool) {a : α} (mem : key ∈ pool.live)
    (member' : other ∈ pool.live) (owned : a ∈ region key) (owned' : a ∈ region other) :
    key = other := by
  by_contra ne
  have remaining : other ∈ pool.live.erase key :=
    (List.mem_erase_of_ne fun same => ne same.symm).mpr member'
  exact Set.disjoint_left.mp (exclusive.apart mem remaining) owned' owned

theorem Step.exclusive {region : κ → Set α} {before after : Pool κ α}
    (step : Step region before after) (exclusive : Exclusive region before) :
    Exclusive region after := by
  cases step with
  | supply inside =>
    refine ⟨?_, ?_, exclusive.live⟩
    · intro a mem either
      rcases either with free | supplied
      · exact exclusive.reserved a mem.1 free
      · exact mem.2 supplied
    · intro key mem a owned
      obtain ⟨notFree, notReserved⟩ := exclusive.free key mem a owned
      refine ⟨?_, fun still => notReserved still.1⟩
      intro either
      rcases either with free | supplied
      · exact notFree free
      · exact notReserved (inside supplied)
  | @take key inside =>
    refine ⟨fun a mem free => exclusive.reserved a mem free.1, ?_, ?_⟩
    · intro other mem a owned
      rcases List.mem_cons.mp mem with same | older
      · subst same
        exact ⟨fun free => free.2 owned, fun reserved => exclusive.reserved a reserved (inside owned)⟩
      · obtain ⟨notFree, notReserved⟩ := exclusive.free _ older a owned
        exact ⟨fun free => notFree free.1, notReserved⟩
    · refine List.pairwise_cons.mpr ⟨?_, exclusive.live⟩
      intro other older
      apply Set.disjoint_left.mpr
      intro a taken owned
      exact (exclusive.free _ older a owned).1 (inside taken)
  | @give key mem =>
    refine ⟨?_, ?_, exclusive.live.sublist List.erase_sublist⟩
    · intro a reserved either
      rcases either with free | returned
      · exact exclusive.reserved a reserved free
      · exact (exclusive.free key mem a returned).2 reserved
    · intro other remaining a owned
      obtain ⟨notFree, notReserved⟩ :=
        exclusive.free _ (List.mem_of_mem_erase remaining) a owned
      refine ⟨?_, notReserved⟩
      intro either
      rcases either with free | returned
      · exact notFree free
      · exact Set.disjoint_left.mp (exclusive.apart mem remaining) owned returned

end Pool

end KOs.Data
