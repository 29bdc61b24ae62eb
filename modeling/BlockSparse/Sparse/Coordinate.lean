import BlockSparse.Error
import BlockSparse.Sparse.Basic

/-! Sparse matrices from entries in any order. Each row is sorted by column, and the values of
entries that share a position are added up in the order in which they come. -/
namespace BlockSparse.SparseMatrix
variable {α : Type}

/-- Puts an entry at its place in a row, adding its value to one already stored there. -/
def insertEntry [Add α] (j : Nat) (x : α) : List (Nat × α) → List (Nat × α)
  | [] => [(j, x)]
  | (k, y) :: rest =>
    if j < k then (j, x) :: (k, y) :: rest
    else if j = k then (k, y + x) :: rest
    else (k, y) :: insertEntry j x rest

/-- The row made of the entries of one row of a matrix. -/
def rowOfEntries [Add α] (entries : List (Nat × α)) : List (Nat × α) :=
  entries.foldl (fun row e => insertEntry e.1 e.2 row) []

/-- The first reason for which the entries do not fit into a matrix of the given size. -/
def tripletsFault (nrows ncols : Nat) (ts : List (Nat × Nat × α)) : Option FormatFault :=
  if ts.any fun t => nrows ≤ t.1 then some .entryRowOutOfBounds
  else if ts.any fun t => ncols ≤ t.2.1 then some .entryColumnOutOfBounds
  else none

/-- The matrix of the given size with the given entries. -/
def ofTriplets [Add α] (nrows ncols : Nat) (ts : List (Nat × Nat × α)) :
    Except Error (SparseMatrix α) :=
  match tripletsFault nrows ncols ts with
  | some fault => .error (.malformed fault)
  | none => .ok ⟨ncols, (List.range nrows).map fun i =>
      rowOfEntries ((ts.filter (·.1 == i)).map Prod.snd)⟩

/-- An entry to the right of all others goes to the end. -/
theorem insertEntry_of_forall_lt [Add α] {j : Nat} {x : α} {entries : List (Nat × α)}
    (h : ∀ e ∈ entries, e.1 < j) : insertEntry j x entries = entries ++ [(j, x)] := by
  induction entries with
  | nil => rfl
  | cons e entries ih =>
    obtain ⟨k, y⟩ := e
    have hk : k < j := h (k, y) (List.mem_cons_self ..)
    simp only [insertEntry, List.cons_append]
    rw [if_neg (by omega), if_neg (by omega), ih fun e he => h e (List.mem_cons_of_mem _ he)]

/-- Entries that come in column order are put one behind the other. -/
theorem foldl_insertEntry_of_ascending [Add α] (front : List (Nat × α)) {entries : List (Nat × α)}
    (h : Ascending ((front ++ entries).map Prod.fst)) :
    entries.foldl (fun row e => insertEntry e.1 e.2 row) front = front ++ entries := by
  induction entries generalizing front with
  | nil => simp
  | cons e entries ih =>
    have hfront : ∀ d ∈ front, d.1 < e.1 := by
      intro d hd
      rw [List.map_append, List.map_cons, Ascending, List.pairwise_append] at h
      exact h.2.2 d.1 (List.mem_map_of_mem hd) e.1 (List.mem_cons_self ..)
    rw [List.foldl_cons, insertEntry_of_forall_lt hfront, ih _ (by simpa using h)]
    simp

/-- Entries that come in column order are left as they are. -/
theorem rowOfEntries_of_ascending [Add α] {entries : List (Nat × α)}
    (h : Ascending (entries.map Prod.fst)) : rowOfEntries entries = entries :=
  foldl_insertEntry_of_ascending [] (by simpa using h)

example : ofTriplets 2 3 [(1, 2, 5), (0, 1, 4), (1, 0, 7), (1, 2, 1)] =
    .ok ⟨3, [[(1, 4)], [(0, 7), (2, 6)]]⟩ := rfl

end BlockSparse.SparseMatrix
