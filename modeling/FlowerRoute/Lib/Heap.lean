import Mathlib.Data.List.Basic

/-!
# Heaps of numbered cells

A heap hands out identifiers in order and never reuses one, so an identifier stands for one
object for ever. A cell that was never handed out holds the default value. Reference counts
rest on `Heap.countP_range_update`: a count over cells changes by the cell that changed.
-/

/-- Cells by identifier, with the first identifier not handed out yet. -/
structure Heap (α : Type) [Inhabited α] where
  /-- The value of every cell. -/
  cell : Nat → α := fun _ => default
  /-- The next identifier to hand out. -/
  next : Nat := 0

namespace Heap

variable {α : Type} [Inhabited α]

instance : Inhabited (Heap α) := ⟨{}⟩

/-- Hand out the next identifier, for a cell that holds `value`. -/
def alloc (h : Heap α) (value : α) : Heap α where
  cell i := if i = h.next then value else h.cell i
  next := h.next + 1

/-- Rewrite one cell. -/
def modify (h : Heap α) (i : Nat) (f : α → α) : Heap α where
  cell j := if j = i then f (h.cell j) else h.cell j
  next := h.next

@[simp] theorem next_modify (h : Heap α) (i : Nat) (f : α → α) :
    (h.modify i f).next = h.next := rfl

@[simp] theorem next_alloc (h : Heap α) (value : α) : (h.alloc value).next = h.next + 1 := rfl

/-- A rewritten cell holds its new value. -/
@[simp] theorem cell_modify_same (h : Heap α) (i : Nat) (f : α → α) :
    (h.modify i f).cell i = f (h.cell i) := by
  simp [modify]

/-- Every other cell is unchanged. -/
theorem cell_modify_ne (h : Heap α) {i j : Nat} (f : α → α) (other : j ≠ i) :
    (h.modify i f).cell j = h.cell j := by
  simp [modify, other]

/-- Both cases of a rewrite. -/
theorem cell_modify (h : Heap α) (i j : Nat) (f : α → α) :
    (h.modify i f).cell j = if j = i then f (h.cell j) else h.cell j := rfl

/-- A field that the rewrite keeps is the same in every cell. -/
theorem cell_modify_field {β : Type} (h : Heap α) (i j : Nat) {f : α → α} (field : α → β)
    (keep : ∀ value, field (f value) = field value) :
    field ((h.modify i f).cell j) = field (h.cell j) := by
  rw [cell_modify]
  split
  · exact keep _
  · rfl

/-- Two rewrites of one cell are one rewrite. -/
@[simp] theorem modify_modify (h : Heap α) (i : Nat) (f g : α → α) :
    (h.modify i f).modify i g = h.modify i fun value => g (f value) := by
  simp only [modify, mk.injEq, and_true]
  funext j
  split <;> rfl

/-- A rewrite is what it does to the one cell. -/
theorem modify_congr (h : Heap α) (i : Nat) (f g : α → α) (same : f (h.cell i) = g (h.cell i)) :
    h.modify i f = h.modify i g := by
  simp only [modify, mk.injEq, and_true]
  funext j
  split
  · next here =>
    rw [here]
    exact same
  · rfl

/-- A rewrite that changes nothing. -/
theorem modify_id (h : Heap α) (i : Nat) {f : α → α} (same : f (h.cell i) = h.cell i) :
    h.modify i f = h := by
  obtain ⟨cell, next⟩ := h
  simp only [modify, mk.injEq, and_true]
  funext j
  split
  · rename_i here
    rw [here]
    exact same
  · rfl

/-- A rewrite of the new cell happens before it is handed out. -/
@[simp] theorem modify_alloc (h : Heap α) (value : α) (f : α → α) :
    (h.alloc value).modify h.next f = h.alloc (f value) := by
  simp only [modify, alloc, mk.injEq, and_true]
  funext j
  split <;> rfl

/-- The new cell holds the value it was handed out for. -/
@[simp] theorem cell_alloc_same (h : Heap α) (value : α) :
    (h.alloc value).cell h.next = value := by
  simp [alloc]

/-- Handing out a cell changes no other cell. -/
theorem cell_alloc_ne (h : Heap α) {i : Nat} (value : α) (other : i ≠ h.next) :
    (h.alloc value).cell i = h.cell i := by
  simp [alloc, other]

/-- Both cases of a new cell. -/
theorem cell_alloc (h : Heap α) (i : Nat) (value : α) :
    (h.alloc value).cell i = if i = h.next then value else h.cell i := rfl

/-- A view of every cell after a rewrite. -/
theorem view_modify {β : Type} (h : Heap α) (i : Nat) (f : α → α) (view : α → β) :
    (fun j => view ((h.modify i f).cell j)) =
      Function.update (fun j => view (h.cell j)) i (view (f (h.cell i))) := by
  funext j
  by_cases here : j = i
  · subst here
    rw [cell_modify_same, Function.update_self]
  · rw [cell_modify_ne h f here, Function.update_of_ne here]

/-- A view of every cell after one was handed out. -/
theorem view_alloc {β : Type} (h : Heap α) (value : α) (view : α → β) :
    (fun j => view ((h.alloc value).cell j)) =
      Function.update (fun j => view (h.cell j)) h.next (view value) := by
  funext j
  by_cases here : j = h.next
  · subst here
    rw [cell_alloc_same, Function.update_self]
  · rw [cell_alloc_ne h value here, Function.update_of_ne here]

/-- Counting over a range after one index changed. -/
theorem countP_range_update (n i : Nat) (p q : Nat → Bool) (bound : i < n)
    (agree : ∀ j, j ≠ i → p j = q j) :
    (List.range n).countP q + (p i).toNat = (List.range n).countP p + (q i).toNat := by
  induction n with
  | zero => omega
  | succ n ih =>
    simp only [List.range_succ, List.countP_append, List.countP_singleton]
    by_cases last : i = n
    · subst last
      have same : (List.range i).countP q = (List.range i).countP p :=
        List.countP_congr fun j member => by
          rw [agree j (by have := List.mem_range.mp member; omega)]
      rw [same]
      cases p i <;> cases q i <;> simp
    · have earlier := ih (by omega)
      rw [agree n (by omega)]
      omega

end Heap
