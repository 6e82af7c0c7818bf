/-! # Totals

The total size of the members of a list, for a size of each.
-/

namespace PartScan

variable {α β : Type}

/-- The sum of the sizes of all members. -/
def total (size : α → Nat) : List α → Nat
  | [] => 0
  | a :: l => size a + total size l

@[simp] theorem total_nil (size : α → Nat) : total size [] = 0 := rfl

@[simp] theorem total_cons (size : α → Nat) (a : α) (l : List α) :
    total size (a :: l) = size a + total size l := rfl

@[simp] theorem total_append (size : α → Nat) (l m : List α) :
    total size (l ++ m) = total size l + total size m := by
  induction l with
  | nil => simp
  | cons a l ih => simp only [List.cons_append, total_cons, ih]; omega

theorem total_set (size : α → Nat) {l : List α} {i : Nat} {a : α} (b : α) (h : l[i]? = some a) :
    total size (l.set i b) + size a = total size l + size b := by
  induction l generalizing i with
  | nil => simp at h
  | cons x l ih =>
    cases i with
    | zero =>
      simp only [List.getElem?_cons_zero, Option.some.injEq] at h
      simp only [List.set_cons_zero, total_cons, h]
      omega
    | succ i =>
      have := ih (by simpa using h)
      simp only [List.set_cons_succ, total_cons]
      omega

theorem total_modify (size : α → Nat) {l : List α} {i : Nat} {f : α → α}
    (h : ∀ a, size (f a) = size a) : total size (l.modify i f) = total size l := by
  induction l generalizing i with
  | nil => simp
  | cons x l ih => cases i <;> simp [h, ih]

theorem total_filter_le (size : α → Nat) (p : α → Bool) (l : List α) :
    total size (l.filter p) ≤ total size l := by
  induction l with
  | nil => simp
  | cons x l ih =>
    rw [List.filter_cons]
    split
    · simpa using ih
    · simp only [total_cons]
      omega

theorem total_erase [DecidableEq α] (size : α → Nat) {l : List α} {a : α} (h : a ∈ l) :
    total size (l.erase a) + size a = total size l := by
  induction l with
  | nil => simp at h
  | cons x l ih =>
    rw [List.erase_cons]
    split
    · rename_i hx
      rw [eq_of_beq hx]
      simp only [total_cons]
      omega
    · rename_i hx
      have hne : x ≠ a := by simpa using hx
      have := ih ((List.mem_cons.1 h).resolve_left (Ne.symm hne))
      simp only [total_cons]
      omega

theorem total_map (size : β → Nat) (f : α → β) (l : List α) :
    total size (l.map f) = total (fun a => size (f a)) l := by
  induction l with
  | nil => rfl
  | cons a l ih => simp only [List.map_cons, total_cons, ih]

end PartScan
