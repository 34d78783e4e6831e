import Mathlib
import WebSocketCore.Ring.Ack

/-! # Laying the marker queue out

The markers are read from the tail: a region's marker covers its unused reserve and its
unacknowledged bytes, and a jump marker moves back to offset 0. This module holds the layout of a
marker queue and what the acknowledgement walk does to it. The walk moves the tail over what it
covers without moving the place where the layout ends, spends exactly the credit that the bytes
of the markers it passes account for, and never stops in front of a jump.
-/

namespace WebSocketCore

/-- Where the layout goes on after a marker that starts at `pos`. -/
def Marker.next (m : Marker) (pos : Nat) : Nat := if m.wrap then 0 else pos + m.scratch + m.len

namespace FrameRing

/-- Where laying the markers out from `pos` ends. -/
def layoutEnd (pos : Nat) (ms : List Marker) : Nat := ms.foldl (fun p m => m.next p) pos

@[simp] theorem layoutEnd_nil (pos : Nat) : layoutEnd pos [] = pos := rfl

@[simp] theorem layoutEnd_cons (pos : Nat) (m : Marker) (ms : List Marker) :
    layoutEnd pos (m :: ms) = layoutEnd (m.next pos) ms := rfl

@[simp] theorem layoutEnd_append (pos : Nat) (ms ns : List Marker) :
    layoutEnd pos (ms ++ ns) = layoutEnd (layoutEnd pos ms) ns := List.foldl_append ..

/-- Without jumps the layout only moves forward. -/
theorem le_layoutEnd (pos : Nat) (ms : List Marker) (plain : ∀ m ∈ ms, m.wrap = false) :
    pos ≤ layoutEnd pos ms := by
  induction ms generalizing pos with
  | nil => exact Nat.le_refl pos
  | cons m ms ih =>
    have next : pos ≤ m.next pos := by
      simp [Marker.next, plain m List.mem_cons_self]
      omega
    exact Nat.le_trans next (ih _ fun n member => plain n (List.mem_cons_of_mem m member))

/-- Without jumps, a queue whose first region still holds a byte ends past where it starts. -/
theorem lt_layoutEnd (pos : Nat) (m : Marker) (ms : List Marker)
    (plain : ∀ n ∈ m :: ms, n.wrap = false) (held : 1 ≤ m.len) :
    pos < layoutEnd pos (m :: ms) := by
  have next : pos < m.next pos := by
    simp [Marker.next, plain m List.mem_cons_self]
    omega
  exact Nat.lt_of_lt_of_le next (le_layoutEnd _ ms fun n member => plain n (List.mem_cons_of_mem m member))

/-- Pushing a marker keeps every place the layout passes within a bound, if the place after the
new marker is within it too. -/
theorem points_le_append (pos bound : Nat) (ms : List Marker) (m : Marker)
    (points : ∀ k, layoutEnd pos (ms.take k) ≤ bound) (last : m.next (layoutEnd pos ms) ≤ bound) :
    ∀ k, layoutEnd pos ((ms ++ [m]).take k) ≤ bound := by
  intro k
  rw [List.take_append]
  by_cases within : k ≤ ms.length
  · rw [Nat.sub_eq_zero_of_le within]
    simpa using points k
  · rw [List.take_of_length_le (by omega), layoutEnd_append]
    obtain ⟨j, beyond⟩ : ∃ j, k - ms.length = j + 1 := ⟨k - ms.length - 1, by omega⟩
    rw [beyond]
    simpa using last

/-! ## The acknowledgement walk -/

/-- The walk ends where the queue it started on ended. -/
theorem reclaim_layoutEnd (tail left : Nat) (ms : List Marker) :
    layoutEnd (reclaim tail left ms).2.1 (reclaim tail left ms).1 = layoutEnd tail ms := by
  fun_induction reclaim tail left ms with
  | case1 => rfl
  | case2 tail left m ms wrap ih => simp [ih, Marker.next, wrap]
  | case3 => rfl
  | case4 tail left m ms plain _ short =>
    simp only [layoutEnd_cons, Marker.next, plain, Bool.false_eq_true, ↓reduceIte]
    congr 1
    omega
  | case5 tail left m ms plain _ _ ih => simp [ih, Marker.next, plain]

/-- The credit spent is the drop in the markers' unacknowledged bytes, jumps holding none. -/
theorem reclaim_len_sum (tail left : Nat) (ms : List Marker)
    (jumps : ∀ m ∈ ms, m.wrap = true → m.len = 0) :
    ((reclaim tail left ms).1.map (·.len)).sum + left =
      (ms.map (·.len)).sum + (reclaim tail left ms).2.2 := by
  fun_induction reclaim tail left ms with
  | case1 => simp
  | case2 tail left m ms wrap ih =>
    have empty := jumps m List.mem_cons_self wrap
    simp only [List.map_cons, List.sum_cons, empty, Nat.zero_add]
    exact ih fun n member => jumps n (List.mem_cons_of_mem m member)
  | case3 => simp
  | case4 tail left m ms _ _ short =>
    simp only [List.map_cons, List.sum_cons, Nat.add_zero]
    omega
  | case5 tail left m ms _ _ covered ih =>
    have rest := ih fun n member => jumps n (List.mem_cons_of_mem m member)
    simp only [List.map_cons, List.sum_cons]
    omega

/-- The walk keeps credit only when it ran out of markers. -/
theorem reclaim_left_eq_zero_or (tail left : Nat) (ms : List Marker) :
    (reclaim tail left ms).2.2 = 0 ∨ (reclaim tail left ms).1 = [] := by
  fun_induction reclaim tail left ms with
  | case1 => exact .inr rfl
  | case2 _ _ _ _ _ ih => exact ih
  | case3 => exact .inl rfl
  | case4 => exact .inl rfl
  | case5 _ _ _ _ _ _ _ ih => exact ih

/-- A credit that the markers' bytes cover is spent whole. -/
theorem reclaim_left_eq_zero (tail left : Nat) (ms : List Marker)
    (jumps : ∀ m ∈ ms, m.wrap = true → m.len = 0) (covered : left ≤ (ms.map (·.len)).sum) :
    (reclaim tail left ms).2.2 = 0 := by
  have spent := reclaim_len_sum tail left ms jumps
  rcases reclaim_left_eq_zero_or tail left ms with zero | empty
  · exact zero
  · rw [empty] at spent
    simp only [List.map_nil, List.sum_nil, Nat.zero_add] at spent
    omega

/-- The walk never stops in front of a jump. -/
theorem reclaim_front (tail left : Nat) (ms : List Marker) :
    ∀ m, (reclaim tail left ms).1.head? = some m → m.wrap = false := by
  fun_induction reclaim tail left ms with
  | case1 => simp
  | case2 _ _ _ _ _ ih => exact ih
  | case3 tail m ms plain => simpa using plain
  | case4 tail left m ms plain => simpa using plain
  | case5 _ _ _ _ _ _ _ ih => exact ih

/-- The walk adds no jump. -/
theorem reclaim_countP_wrap (tail left : Nat) (ms : List Marker) :
    (reclaim tail left ms).1.countP (·.wrap) ≤ ms.countP (·.wrap) := by
  fun_induction reclaim tail left ms with
  | case1 => simp
  | case2 tail left m ms wrap ih =>
    rw [List.countP_cons_of_pos (by simpa using wrap)]
    omega
  | case3 => exact Nat.le_refl _
  | case4 tail left m ms plain =>
    simp [plain]
  | case5 tail left m ms plain _ _ ih =>
    rw [List.countP_cons_of_neg (by simpa using plain)]
    exact ih

/-- The walk leaves no more markers than it found. -/
theorem reclaim_length_le (tail left : Nat) (ms : List Marker) :
    (reclaim tail left ms).1.length ≤ ms.length := by
  fun_induction reclaim tail left ms with
  | case1 => exact Nat.le_refl _
  | case2 _ _ _ _ _ ih => simp only [List.length_cons]; omega
  | case3 => exact Nat.le_refl _
  | case4 => simp
  | case5 _ _ _ _ _ _ _ ih => simp only [List.length_cons]; omega

/-- Every marker the walk leaves is one it found, or a region it partly covered, which keeps at
least one byte and no reserve. -/
theorem mem_reclaim (tail left : Nat) (ms : List Marker) :
    ∀ m ∈ (reclaim tail left ms).1, m ∈ ms ∨ (m.wrap = false ∧ m.scratch = 0 ∧ 1 ≤ m.len) := by
  fun_induction reclaim tail left ms with
  | case1 => simp
  | case2 tail left m ms _ ih =>
    intro n member
    rcases ih n member with found | trimmed
    · exact .inl (List.mem_cons_of_mem m found)
    · exact .inr trimmed
  | case3 => exact fun n member => .inl member
  | case4 tail left m ms plain _ short =>
    intro n member
    rcases List.mem_cons.mp member with rfl | found
    · exact .inr ⟨by simpa using plain, rfl, by simp only; omega⟩
    · exact .inl (List.mem_cons_of_mem m found)
  | case5 tail left m ms _ _ _ ih =>
    intro n member
    rcases ih n member with found | trimmed
    · exact .inl (List.mem_cons_of_mem m found)
    · exact .inr trimmed

/-- The places the walk's layout passes are places the old layout passed or the new tail, which
lies inside a region the old layout covered: a bound on the old places bounds the new. -/
theorem reclaim_points_le (tail left bound : Nat) (ms : List Marker)
    (points : ∀ k, layoutEnd tail (ms.take k) ≤ bound) :
    ∀ k, layoutEnd (reclaim tail left ms).2.1 ((reclaim tail left ms).1.take k) ≤ bound := by
  fun_induction reclaim tail left ms with
  | case1 => simpa using points 0
  | case2 tail left m ms wrap ih =>
    refine ih fun k => ?_
    simpa [Marker.next, wrap] using points (k + 1)
  | case3 => exact points
  | case4 tail left m ms plain _ short =>
    intro k
    cases k with
    | zero =>
      have first := points 1
      simp only [List.take_succ_cons, List.take_zero, layoutEnd_cons, layoutEnd_nil, Marker.next,
        plain, Bool.false_eq_true, ↓reduceIte] at first
      simp only [List.take_zero, layoutEnd_nil]
      omega
    | succ k =>
      have same : tail + m.scratch + left + (m.len - left) = tail + m.scratch + m.len := by omega
      simpa [Marker.next, plain, same] using points (k + 1)
  | case5 tail left m ms plain _ _ ih =>
    refine ih fun k => ?_
    simpa [Marker.next, plain] using points (k + 1)

/-- A walk that passes no jump leaves the tail where it was or further on. -/
theorem le_reclaim_tail (tail left : Nat) (ms : List Marker)
    (kept : (reclaim tail left ms).1.countP (·.wrap) = ms.countP (·.wrap)) :
    tail ≤ (reclaim tail left ms).2.1 := by
  fun_induction reclaim tail left ms with
  | case1 => exact Nat.le_refl _
  | case2 tail left m ms wrap ih =>
    have fewer := reclaim_countP_wrap 0 left ms
    rw [List.countP_cons_of_pos (by simpa using wrap)] at kept
    omega
  | case3 => exact Nat.le_refl _
  | case4 => simp only; omega
  | case5 tail left m ms plain _ _ ih =>
    rw [List.countP_cons_of_neg (by simpa using plain)] at kept
    have further := ih kept
    omega

/-- A credit that the first markers cover leaves the markers behind them alone, provided the
first of those is no jump. -/
theorem reclaim_append (tail left : Nat) (ms rest : List Marker)
    (jumps : ∀ m ∈ ms, m.wrap = true → m.len = 0) (covered : left ≤ (ms.map (·.len)).sum)
    (front : ∀ m, rest.head? = some m → m.wrap = false) :
    reclaim tail left (ms ++ rest) =
      ((reclaim tail left ms).1 ++ rest, (reclaim tail left ms).2.1, (reclaim tail left ms).2.2) := by
  fun_induction reclaim tail left ms with
  | case1 tail left =>
    have zero : left = 0 := by simpa using covered
    subst zero
    cases rest with
    | nil => rfl
    | cons n rest =>
      have plain := front n rfl
      simp [reclaim, plain]
  | case2 tail left m ms wrap ih =>
    have empty := jumps m List.mem_cons_self wrap
    simp only [List.map_cons, List.sum_cons, empty, Nat.zero_add] at covered
    simp only [List.cons_append, reclaim, wrap, ↓reduceIte]
    exact ih (fun n member => jumps n (List.mem_cons_of_mem m member)) covered
  | case3 tail m ms plain => simp [reclaim, plain]
  | case4 tail left m ms plain nonzero short => simp [reclaim, plain, nonzero, short]
  | case5 tail left m ms plain nonzero notShort ih =>
    simp only [List.map_cons, List.sum_cons] at covered
    simp only [List.cons_append, reclaim, plain, nonzero, notShort, Bool.false_eq_true, ↓reduceIte]
    exact ih (fun n member => jumps n (List.mem_cons_of_mem m member)) (by omega)

/-- Dropping jumps from a queue whose front is no jump changes nothing. -/
theorem dropJumps_of_front (ms : List Marker) (tail : Nat)
    (front : ∀ m, ms.head? = some m → m.wrap = false) : dropJumps ms tail = (ms, tail) := by
  cases ms with
  | nil => rfl
  | cons m ms => simp [dropJumps, front m rfl]

end FrameRing

end WebSocketCore
