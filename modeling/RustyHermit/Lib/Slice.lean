import Mathlib.Algebra.BigOperators.Group.List.Basic

/-!
# Slices that are written in place

A slice is a list, and an access past its end fails.

- `Slice.forStore`: a loop that stores one value an iteration. It runs through if
  all its values and places exist (`exists_forStore`), and it changes what it stores
  and nothing else (`forStore_stored`, `forStore_same`).
- `Slice.forChunks`: a loop over the chunks of a slice, of which every one is
  handled on its own (`exists_forChunks`, `forChunks_getElem?`).
- `mapM_eq_some_map`, `foldlM_add`: loops of which no iteration fails.
-/

namespace RustyHermit

namespace Slice

universe u

variable {α : Type u}

/-- `slice[i] = v`. -/
def store (slice : List α) (i : Nat) (v : α) : Option (List α) :=
  if i < slice.length then some (slice.set i v) else none

theorem store_of_lt {slice : List α} {i : Nat} (h : i < slice.length) (v : α) :
    store slice i v = some (slice.set i v) :=
  if_pos h

theorem lt_of_store {slice slice' : List α} {i : Nat} {v : α}
    (h : store slice i v = some slice') : i < slice.length ∧ slice' = slice.set i v := by
  obtain ⟨hlt, heq⟩ := Option.ite_none_right_eq_some.mp h
  exact ⟨hlt, (Option.some.inj heq).symm⟩

/-! ## Storing in a loop -/

/-- `for x in xs { slice[place(x)] = value(x) }`, where the value may fail. -/
def forStore (place : Nat → Nat) (value : Nat → Option α) (xs : List Nat) (slice : List α) :
    Option (List α) :=
  xs.foldlM (fun slice x => (value x).bind (store slice (place x))) slice

variable {place : Nat → Nat} {value : Nat → Option α} {xs : List Nat}

theorem forStore_cons {x : Nat} {slice slice' : List α}
    (h : forStore place value (x :: xs) slice = some slice') :
    ∃ v, value x = some v ∧ place x < slice.length ∧
      forStore place value xs (slice.set (place x) v) = some slice' := by
  obtain ⟨next, hnext, hrest⟩ := Option.bind_eq_some_iff.mp h
  obtain ⟨v, hv, hstore⟩ := Option.bind_eq_some_iff.mp hnext
  obtain ⟨hlt, rfl⟩ := lt_of_store hstore
  exact ⟨v, hv, hlt, hrest⟩

/-- The loop of stores runs through if every value and every place exists. -/
theorem exists_forStore {slice : List α}
    (h : ∀ x ∈ xs, (value x).isSome ∧ place x < slice.length) :
    ∃ slice', forStore place value xs slice = some slice' := by
  induction xs generalizing slice with
  | nil => exact ⟨slice, rfl⟩
  | cons x xs ih =>
    obtain ⟨hvalue, hplace⟩ := h x List.mem_cons_self
    obtain ⟨v, hv⟩ := Option.isSome_iff_exists.mp hvalue
    have hset : ∀ y ∈ xs, (value y).isSome ∧ place y < (slice.set (place x) v).length := by
      intro y hy
      rw [List.length_set]
      exact h y (List.mem_cons_of_mem x hy)
    obtain ⟨slice', hrest⟩ := ih hset
    refine ⟨slice', ?_⟩
    show ((value x).bind (store slice (place x))).bind (forStore place value xs) = some slice'
    rw [hv, Option.bind_some, store_of_lt hplace, Option.bind_some]
    exact hrest

/-- A slice keeps its length. -/
theorem length_forStore {slice slice' : List α}
    (h : forStore place value xs slice = some slice') : slice'.length = slice.length := by
  induction xs generalizing slice with
  | nil => rw [Option.some.inj h]
  | cons x xs ih =>
    obtain ⟨v, -, -, hrest⟩ := forStore_cons h
    rw [ih hrest, List.length_set]

/-- Where the loop of stores runs through, every value exists. -/
theorem value_of_forStore {slice slice' : List α} {x : Nat}
    (h : forStore place value xs slice = some slice') (hx : x ∈ xs) : ∃ v, value x = some v := by
  induction xs generalizing slice with
  | nil => cases hx
  | cons y ys ih =>
    obtain ⟨v, hv, -, hrest⟩ := forStore_cons h
    rcases List.mem_cons.mp hx with rfl | hx
    · exact ⟨v, hv⟩
    · exact ih hrest hx

/-- What no iteration stores stays. -/
theorem forStore_same {slice slice' : List α} {i : Nat}
    (h : forStore place value xs slice = some slice') (hi : ∀ x ∈ xs, place x ≠ i) :
    slice'[i]? = slice[i]? := by
  induction xs generalizing slice with
  | nil => rw [Option.some.inj h]
  | cons x xs ih =>
    obtain ⟨v, -, -, hrest⟩ := forStore_cons h
    have hx := hi x List.mem_cons_self
    rw [ih hrest fun y hy => hi y (List.mem_cons_of_mem x hy), List.getElem?_set_ne hx]

/-- A place to which the iterations store `v` and nothing else has it in the end, if
there is such an iteration or it had it before. -/
theorem forStore_stored {slice slice' : List α} {i : Nat} {v : α}
    (h : forStore place value xs slice = some slice')
    (hsame : ∀ x ∈ xs, place x = i → value x = some v)
    (hi : slice[i]? = some v ∨ ∃ x ∈ xs, place x = i) : slice'[i]? = some v := by
  induction xs generalizing slice with
  | nil =>
    rcases hi with hi | ⟨x, hx, -⟩
    · rwa [← Option.some.inj h]
    · cases hx
  | cons y ys ih =>
    obtain ⟨w, hw, hlt, hrest⟩ := forStore_cons h
    refine ih hrest (fun x hx => hsame x (List.mem_cons_of_mem y hx)) ?_
    by_cases hy : place y = i
    · have hwv : w = v := Option.some.inj (hw.symm.trans (hsame y List.mem_cons_self hy))
      rw [hy] at hlt ⊢
      rw [hwv, List.getElem?_set_self hlt]
      exact .inl rfl
    · rw [List.getElem?_set_ne hy]
      rcases hi with hi | ⟨x, hx, hxi⟩
      · exact .inl hi
      · rcases List.mem_cons.mp hx with rfl | hx
        · exact absurd hxi hy
        · exact .inr ⟨x, hx, hxi⟩

/-! ## Chunks -/

/-- `n` chunks of the width `w`, of which the first has the number `i`: the body gets
the number and the chunk, and gives what it makes of the chunk. -/
def forChunks (w : Nat) (body : Nat → List α → Option (List α)) :
    Nat → Nat → List α → Option (List α)
  | 0, _, rest => some rest
  | n + 1, i, slice => do
    let chunk ← body i (slice.take w)
    let rest ← forChunks w body n (i + 1) (slice.drop w)
    some (chunk ++ rest)

variable {w : Nat} {body : Nat → List α → Option (List α)}

theorem forChunks_succ {n i : Nat} {slice slice' : List α}
    (h : forChunks w body (n + 1) i slice = some slice') :
    ∃ chunk rest, body i (slice.take w) = some chunk ∧
      forChunks w body n (i + 1) (slice.drop w) = some rest ∧ slice' = chunk ++ rest := by
  obtain ⟨chunk, hchunk, hn⟩ := Option.bind_eq_some_iff.mp h
  obtain ⟨rest, hrest, happend⟩ := Option.bind_eq_some_iff.mp hn
  exact ⟨chunk, rest, hchunk, hrest, (Option.some.inj happend).symm⟩

/-- The loop over the chunks runs through if the body does for every chunk. -/
theorem exists_forChunks {n i : Nat} {slice : List α}
    (h : ∀ c, c < n → (body (i + c) ((slice.drop (c * w)).take w)).isSome) :
    ∃ slice', forChunks w body n i slice = some slice' := by
  induction n generalizing i slice with
  | zero => exact ⟨slice, rfl⟩
  | succ n ih =>
    have hfirst := h 0 (Nat.succ_pos n)
    rw [Nat.zero_mul, List.drop_zero, Nat.add_zero] at hfirst
    obtain ⟨chunk, hchunk⟩ := Option.isSome_iff_exists.mp hfirst
    have hlater : ∀ c, c < n →
        (body (i + 1 + c) (((slice.drop w).drop (c * w)).take w)).isSome := by
      intro c hc
      have hnext := h (c + 1) (Nat.succ_lt_succ hc)
      have hdrop : w + c * w = (c + 1) * w := by rw [Nat.succ_mul, Nat.add_comm]
      have hnumber : i + 1 + c = i + (c + 1) := by omega
      rw [List.drop_drop, hdrop, hnumber]
      exact hnext
    obtain ⟨rest, hrest⟩ := ih hlater
    refine ⟨chunk ++ rest, ?_⟩
    rw [forChunks, hchunk, Option.bind_eq_bind, Option.bind_some, hrest]
    rfl

variable (hbody : ∀ i chunk chunk', body i chunk = some chunk' → chunk'.length = chunk.length)
include hbody

theorem length_forChunks {n i : Nat} {slice slice' : List α}
    (h : forChunks w body n i slice = some slice') : slice'.length = slice.length := by
  induction n generalizing i slice slice' with
  | zero => rw [Option.some.inj h]
  | succ n ih =>
    obtain ⟨chunk, rest, hchunk, hrest, rfl⟩ := forChunks_succ h
    rw [List.length_append, hbody _ _ _ hchunk, ih hrest, List.length_take, List.length_drop]
    omega

/-- **Every chunk is handled on its own**: place `x` of chunk `c` of the result. -/
theorem forChunks_getElem? {n i c x : Nat} {slice slice' : List α}
    (h : forChunks w body n i slice = some slice') (hc : c < n) (hx : x < w)
    (hlt : c * w + x < slice.length) :
    ∃ chunk, body (i + c) ((slice.drop (c * w)).take w) = some chunk ∧
      slice'[c * w + x]? = chunk[x]? := by
  induction n generalizing i c slice slice' with
  | zero => omega
  | succ n ih =>
    obtain ⟨chunk, rest, hchunk, hrest, rfl⟩ := forChunks_succ h
    have hlength : chunk.length = min w slice.length := by
      rw [hbody _ _ _ hchunk, List.length_take]
    cases c with
    | zero =>
      rw [Nat.zero_mul, Nat.zero_add] at hlt ⊢
      refine ⟨chunk, ?_, List.getElem?_append_left (by omega)⟩
      rw [List.drop_zero, Nat.add_zero]
      exact hchunk
    | succ c =>
      have hw : (c + 1) * w = w + c * w := by rw [Nat.succ_mul, Nat.add_comm]
      have hnumber : i + 1 + c = i + (c + 1) := by omega
      rw [hw] at hlt
      obtain ⟨chunk', hchunk', hget⟩ := ih hrest (Nat.lt_of_succ_lt_succ hc) (by
        rw [List.length_drop]
        omega)
      rw [List.drop_drop, hnumber] at hchunk'
      refine ⟨chunk', ?_, ?_⟩
      · rw [hw]
        exact hchunk'
      · rw [hw, List.getElem?_append_right (by omega), ← hget]
        congr 1
        omega

end Slice

/-! ## Loops of which no iteration fails -/

universe u v

theorem mapM_eq_some_map {α : Type u} {β : Type v} {f : α → Option β} {g : α → β} {l : List α}
    (h : ∀ x ∈ l, f x = some (g x)) : l.mapM f = some (l.map g) := by
  induction l with
  | nil => rfl
  | cons x l ih =>
    have hx := h x List.mem_cons_self
    have hl := ih fun y hy => h y (List.mem_cons_of_mem x hy)
    rw [List.mapM_cons, hx, hl]
    rfl

/-- A loop that adds up. -/
theorem foldlM_add {α : Type u} {β : Type v} [AddMonoid β] {body : β → α → Option β} {g : α → β}
    {l : List α} (h : ∀ x ∈ l, ∀ sum, body sum x = some (sum + g x)) (sum : β) :
    l.foldlM body sum = some (sum + (l.map g).sum) := by
  induction l generalizing sum with
  | nil =>
    rw [List.map_nil, List.sum_nil, add_zero]
    rfl
  | cons x l ih =>
    have hl := ih (fun y hy => h y (List.mem_cons_of_mem x hy)) (sum + g x)
    rw [List.foldlM_cons, h x List.mem_cons_self sum, List.map_cons, List.sum_cons, ← add_assoc,
      ← hl]
    rfl

end RustyHermit
