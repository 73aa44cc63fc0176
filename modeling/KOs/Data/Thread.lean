import Mathlib.Data.List.Chain
import Mathlib.Data.List.Nodup
import Mathlib.Logic.Function.Basic

namespace KOs.Data

open Function List

/-! Linked lists threaded through arrays of indices. -/

variable {α : Type u}

/-- Following `next` from `start` visits `items` in order and arrives at `stop`. -/
def Threads (next : α → α) : α → List α → α → Prop
  | start, [], stop => start = stop
  | start, item :: items, stop => start = item ∧ Threads next (next item) items stop

variable {next : α → α} {start stop : α} {items : List α}

theorem Threads.frame {changed : α → α}
    (threads : Threads next start items stop) (same : ∀ item ∈ items, changed item = next item) :
    Threads changed start items stop := by
  induction items generalizing start with
  | nil => exact threads
  | cons item _ ih =>
    obtain ⟨first, rest⟩ := threads
    refine ⟨first, ?_⟩
    rw [same item mem_cons_self]
    exact ih rest fun other mem => same other (mem_cons_of_mem item mem)

theorem Threads.push [DecidableEq α] {item : α} (threads : Threads next start items stop) (fresh : item ∉ items) :
    Threads (fun other => if other = item then start else next other) item (item :: items) stop := by
  refine ⟨rfl, ?_⟩
  show Threads _ (if item = item then start else next item) items stop
  rw [if_pos rfl]
  apply threads.frame
  intro other mem
  have apart : other ≠ item := fun same => fresh (same ▸ mem)
  exact if_neg apart

theorem threads_range {next : Nat → Nat} {stop : Nat} (count start : Nat)
    (successor : ∀ i, start ≤ i → i + 1 < start + count → next i = i + 1)
    (last : count ≠ 0 → next (start + count - 1) = stop) (empty : count = 0 → start = stop) :
    Threads next start (List.range' start count) stop := by
  induction count generalizing start with
  | zero => exact empty rfl
  | succ count ih =>
    refine ⟨rfl, ?_⟩
    cases count with
    | zero => exact last (by omega)
    | succ =>
      rw [successor _ le_rfl (by omega)]
      apply ih _
      · intro i _ _
        exact successor i (by omega) (by omega)
      · intro _
        rw [← last (by omega)]
        congr 1
        omega
      · intro none
        contradiction

theorem threads_append {first second : List α} :
    Threads next start (first ++ second) stop ↔
      ∃ middle, Threads next start first middle ∧ Threads next middle second stop := by
  induction first generalizing start with
  | nil => simp [Threads]
  | cons _ _ ih => simp [Threads, ih, and_assoc]

/-- `next` visits `items`, and `prev` of each one behind the first is the one before it. -/
structure Doubly (next prev : α → α) (start : α) (items : List α) (stop : α) : Prop where
  forward : Threads next start items stop
  backward : items.IsChain (fun item follower => prev follower = item)
  nodup : items.Nodup

namespace Doubly

variable {prev : α → α} {item before behind : α} {front back : List α}

theorem pop (list : Doubly next prev start (item :: items) stop) : Doubly next prev (next item) items stop :=
  ⟨list.forward.2, list.backward.tail, (nodup_cons.mp list.nodup).2⟩

theorem start_eq (list : Doubly next prev start items stop) : start = items.headD stop := by
  cases items with
  | nil => exact list.forward
  | cons => exact list.forward.1

theorem around (list : Doubly next prev start (front ++ before :: item :: behind :: back) stop) :
    next item = behind ∧ prev item = before := by
  obtain ⟨_, _, _, _, follows, _⟩ := threads_append.mp list.forward
  obtain ⟨_, linked, _⟩ := isChain_append_cons_cons.mp list.backward
  exact ⟨follows, linked⟩

variable [DecidableEq α]

theorem push (list : Doubly next prev start items stop) (fresh : item ∉ items) :
    Doubly (update next item start) (update prev start item) item (item :: items) stop := by
  refine ⟨⟨rfl, ?_⟩, ?_, nodup_cons.mpr ⟨fresh, list.nodup⟩⟩
  · rw [update_self]
    refine list.forward.frame fun other mem => update_of_ne ?_ ..
    exact fun same => fresh (same ▸ mem)
  · cases items with
    | nil => exact isChain_singleton item
    | cons =>
      obtain ⟨rfl, _⟩ := list.forward
      refine isChain_cons_cons.mpr ⟨update_self .., ?_⟩
      refine list.backward.imp_of_mem_tail_imp fun one other _ later linked => ?_
      have apart : other ≠ start := by
        rintro rfl
        exact (nodup_cons.mp list.nodup).1 later
      rw [update_of_ne apart, linked]

theorem remove (list : Doubly next prev start (front ++ before :: item :: behind :: back) stop) :
    Doubly (update next before behind) (update prev behind before) start (front ++ before :: behind :: back) stop := by
  have sublist : (front ++ before :: behind :: back).Sublist (front ++ before :: item :: behind :: back) :=
    (List.Sublist.refl _).append (((sublist_cons_self item _)).cons_cons _)
  have nodup := list.nodup.sublist sublist
  obtain ⟨_, one, apart⟩ := nodup_append.mp nodup
  rw [nodup_cons, nodup_cons] at one
  obtain ⟨ahead, last, _⟩ := one
  refine ⟨?_, ?_, nodup⟩
  · obtain ⟨middle, first, rfl, second⟩ := threads_append.mp list.forward
    obtain ⟨_, _, rest⟩ := second
    refine threads_append.mpr ⟨middle, first.frame fun other mem => ?_, rfl, ?_⟩
    · exact update_of_ne (apart _ mem _ mem_cons_self) ..
    · rw [update_self]
      refine ⟨rfl, ?_⟩
      have other : behind ≠ middle := fun same => ahead (same ▸ mem_cons_self)
      rw [update_of_ne other]
      refine rest.frame fun later mem => update_of_ne ?_ ..
      exact fun same => ahead (same ▸ mem_cons_of_mem _ mem)
  · obtain ⟨first, _, second⟩ := isChain_append_cons_cons.mp list.backward
    refine isChain_append_cons_cons.mpr ⟨?_, update_self .., ?_⟩
    · refine first.imp_of_mem_imp fun one other _ earlier linked => ?_
      rw [update_of_ne ?_, linked]
      rintro rfl
      rcases mem_append.mp earlier with early | same
      · exact apart _ early _ (mem_cons_of_mem _ mem_cons_self) rfl
      · exact ahead (mem_singleton.mp same ▸ mem_cons_self)
    · refine (isChain_cons_cons.mp second).2.imp_of_mem_tail_imp fun one other _ later linked => ?_
      have apart : other ≠ behind := by
        rintro rfl
        exact last later
      rw [update_of_ne apart, linked]

end Doubly

end KOs.Data
