import Mathlib.Data.List.TakeWhile

/-!
# Pieces — what stands between separators

The pieces of a list are its maximal runs of elements that are no separators.  Separators in a row
count once, and those at the ends not at all.
-/

namespace LocalFiles

variable {α : Type} {separates : α → Bool} {xs ys : List α}

def pieces (separates : α → Bool) (xs : List α) : List (List α) :=
  (xs.splitOnP separates).filter fun piece => !piece.isEmpty

@[simp] theorem pieces_nil : pieces separates [] = [] := rfl

theorem pieces_append_cons {x : α} (hx : separates x = true) (xs ys : List α) :
    pieces separates (xs ++ x :: ys) = pieces separates xs ++ pieces separates ys := by
  unfold pieces
  rw [List.splitOnP_append_cons xs ys hx, List.filter_append]

theorem pieces_cons {x : α} (hx : separates x = true) (xs : List α) :
    pieces separates (x :: xs) = pieces separates xs := pieces_append_cons hx [] xs

theorem pieces_run (hne : xs ≠ []) (h : ∀ x ∈ xs, separates x = false) :
    pieces separates xs = [xs] := by
  unfold pieces
  rw [List.splitOnP_eq_singleton h]
  cases xs with
  | nil => exact absurd rfl hne
  | cons => rfl

/-- Nothing or a separator comes next. -/
def AtBoundary (separates : α → Bool) (xs : List α) : Prop := ∀ x ∈ xs.head?, separates x = true

/-- Pieces end where a separator comes. -/
theorem pieces_append (xs : List α) (hys : AtBoundary separates ys) :
    pieces separates (xs ++ ys) = pieces separates xs ++ pieces separates ys := by
  cases ys with
  | nil => rw [List.append_nil, pieces_nil, List.append_nil]
  | cons y ys =>
    have hy : separates y = true := hys y rfl
    rw [pieces_append_cons hy, pieces_cons hy]

theorem pieces_run_append (hne : xs ≠ []) (h : ∀ x ∈ xs, separates x = false)
    (hys : AtBoundary separates ys) :
    pieces separates (xs ++ ys) = xs :: pieces separates ys := by
  rw [pieces_append xs hys, pieces_run hne h]
  rfl

theorem pieces_separators_append (h : ∀ x ∈ xs, separates x = true) (ys : List α) :
    pieces separates (xs ++ ys) = pieces separates ys := by
  induction xs with
  | nil => rfl
  | cons x xs ih =>
    rw [List.forall_mem_cons] at h
    rw [List.cons_append, pieces_cons h.1, ih h.2]

theorem pieces_dropWhile (xs : List α) :
    pieces separates (xs.dropWhile separates) = pieces separates xs := by
  have happend := pieces_separators_append
    (fun x (hx : x ∈ xs.takeWhile separates) => List.mem_takeWhile_imp hx) (xs.dropWhile separates)
  rw [List.takeWhile_append_dropWhile] at happend
  exact happend.symm

theorem atBoundary_dropWhile (xs : List α) :
    AtBoundary separates (xs.dropWhile fun x => !separates x) := by
  intro x hx
  have hhead := List.head?_dropWhile_not (fun x => !separates x) xs
  rw [hx] at hhead
  simpa using hhead

theorem drop_length_takeWhile (p : α → Bool) (xs : List α) :
    xs.drop (xs.takeWhile p).length = xs.dropWhile p := by
  have hdrop := @List.drop_left α (xs.takeWhile p) (xs.dropWhile p)
  rwa [List.takeWhile_append_dropWhile] at hdrop

/-- All of a piece but no separator is kept. -/
theorem flatten_pieces (xs : List α) :
    (pieces separates xs).flatten = xs.filter fun x => !separates x := by
  unfold pieces
  rw [List.flatten_filter_not_isEmpty]
  induction xs with
  | nil => rfl
  | cons x xs ih =>
    rw [List.splitOnP_cons_eq_if_modifyHead]
    cases hx : separates x with
    | true =>
      rw [if_pos rfl, List.flatten_cons, List.nil_append, ih, List.filter_cons_of_neg (by simp [hx])]
    | false =>
      obtain ⟨first, rest, heq⟩ := List.exists_cons_of_ne_nil (List.splitOnP_ne_nil separates xs)
      rw [heq, List.flatten_cons] at ih
      rw [if_neg Bool.false_ne_true, heq, List.modifyHead_cons, List.flatten_cons, List.cons_append,
        ih, List.filter_cons_of_pos (by simp [hx])]

theorem pieces_eq_nil : pieces separates xs = [] ↔ ∀ x ∈ xs, separates x = true := by
  constructor
  · intro h x hx
    have hflat := @flatten_pieces α separates xs
    rw [h, List.flatten_nil, eq_comm, List.filter_eq_nil_iff] at hflat
    simpa using hflat x hx
  · intro h
    have happend := pieces_separators_append h []
    rwa [List.append_nil] at happend

theorem mem_pieces {piece : List α} (h : piece ∈ pieces separates xs) :
    ∀ x ∈ piece, separates x = false := by
  intro x hx
  have hflat : x ∈ (pieces separates xs).flatten := List.mem_flatten_of_mem h hx
  rw [flatten_pieces, List.mem_filter] at hflat
  simpa using hflat.2

theorem ne_nil_of_mem_pieces {piece : List α} (h : piece ∈ pieces separates xs) : piece ≠ [] := by
  have hfilter := (List.mem_filter.mp h).2
  rintro rfl
  cases hfilter

/-- Separators that do not occur make no difference. -/
theorem pieces_congr {other : α → Bool} (h : ∀ x ∈ xs, separates x = other x) :
    pieces separates xs = pieces other xs := by
  unfold pieces
  congr 1
  induction xs with
  | nil => rfl
  | cons x xs ih =>
    rw [List.forall_mem_cons] at h
    rw [List.splitOnP_cons_eq_if_modifyHead, List.splitOnP_cons_eq_if_modifyHead, h.1, ih h.2]

end LocalFiles
