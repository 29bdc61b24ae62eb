import BlockSparse.Proofs.Sparse.Compressed
import BlockSparse.Sparse.RowBuilder

/-! Runs of insertions. The arrays of a builder are always the compressed form of the rows that it
holds, and an insertion either puts rows behind them or leaves everything as it was. When all rows
of a matrix are inserted in order, nothing is skipped and the finished matrix has exactly these
rows. After any calls, accepted or not, a matrix that is finished is well formed and has the size
that was announced. -/
namespace BlockSparse.RowBuilder
variable {α : Type} {b c : RowBuilder α} {a : SparseMatrix α} {nrows ncols row : Nat}
  {rows : List (List (Nat × α))} {columns : List Nat} {values : List α}

/-- The builder that holds the given rows. -/
def holding (nrows ncols : Nat) (rows : List (List (Nat × α))) : RowBuilder α :=
  ⟨nrows, ncols, Offsets.cumulative (rows.map List.length), rows.flatMap (·.map Prod.fst),
    rows.flatMap (·.map Prod.snd)⟩

section Holding

lemma new_eq_holding : (new nrows ncols : RowBuilder α) = holding nrows ncols [] := rfl

@[simp] lemma nextRow_holding : (holding nrows ncols rows).nextRow = rows.length := by
  simp [nextRow, holding]

/-- Entries that are put behind the rows and closed make one more row. -/
lemma closeRow_extend_holding (hlen : columns.length = values.length) :
    ((holding nrows ncols rows).extend columns values).closeRow =
      holding nrows ncols (rows ++ [columns.zip values]) := by
  have hfst : (columns.zip values).map Prod.fst = columns := List.map_fst_zip (Nat.le_of_eq hlen)
  have hsnd : (columns.zip values).map Prod.snd = values :=
    List.map_snd_zip (Nat.le_of_eq hlen.symm)
  have hend : (rows.flatMap (·.map Prod.fst) ++ columns).length =
      (rows.map List.length).sum + (columns.zip values).length := by
    simp [List.length_flatMap, hlen]
  simp only [holding, extend, closeRow, List.map_append, List.map_singleton, List.flatMap_append,
    List.flatMap_singleton, hfst, hsnd, hend, Offsets.cumulative_concat]

lemma closeRow_holding :
    (holding nrows ncols rows).closeRow = holding nrows ncols (rows ++ [[]]) := by
  have h : ((holding nrows ncols rows).extend [] []).closeRow =
      holding nrows ncols (rows ++ [[].zip []]) := closeRow_extend_holding rfl
  simpa [extend] using h

/-- Rows that are closed without entries are empty. -/
lemma closeRowsUntil_holding (row : Nat) : (holding nrows ncols rows).closeRowsUntil row =
    holding nrows ncols (rows ++ List.replicate (row - rows.length) []) := by
  have hrepeat : ∀ n, Nat.repeat closeRow n (holding nrows ncols rows) =
      holding nrows ncols (rows ++ List.replicate n []) := by
    intro n
    induction n with
    | zero => simp [Nat.repeat]
    | succ n ih =>
      rw [Nat.repeat, ih, closeRow_holding, List.append_assoc, ← List.replicate_succ']
  rw [closeRowsUntil, nextRow_holding, hrepeat]

/-- A finished matrix has the rows that were inserted, followed by empty ones. -/
theorem build_holding (h : rows.length ≤ nrows) : (holding nrows ncols rows).build =
    SparseMatrix.ofRows ncols (rows ++ List.replicate (nrows - rows.length) []) := by
  have hlen : (rows ++ List.replicate (nrows - rows.length) []).length = nrows := by
    rw [List.length_append, List.length_replicate]
    omega
  have harrays : (holding nrows ncols (rows ++ List.replicate (nrows - rows.length) [])).arrays =
      SparseMatrix.compress ⟨ncols, rows ++ List.replicate (nrows - rows.length) []⟩ := by
    rw [arrays, holding, SparseMatrix.compress, SparseMatrix.nrows, hlen]
  have hclosed : (holding nrows ncols rows).closeRowsUntil (holding nrows ncols rows).nrows =
      holding nrows ncols (rows ++ List.replicate (nrows - rows.length) []) :=
    closeRowsUntil_holding nrows
  rw [build, hclosed, harrays, SparseMatrix.toMatrix_compress]

end Holding

/-- A row to be inserted, given by its columns and its values. -/
structure Insertion (α : Type) where
  row : Nat
  columns : List Nat
  values : List α

namespace Insertion

/-- The row is not above those that may still be inserted, nor outside of the matrix, and its two
lists match. -/
structure Fits (nrows nextRow : Nat) (call : Insertion α) : Prop where
  behind : nextRow ≤ call.row
  inside : call.row < nrows
  lengths : call.columns.length = call.values.length

/-- The entries of the row. -/
def entries (call : Insertion α) : List (Nat × α) := call.columns.zip call.values

/-- The given rows and those skipped, and behind them the row of the call. -/
def appendTo (rows : List (List (Nat × α))) (call : Insertion α) : List (List (Nat × α)) :=
  rows ++ List.replicate (call.row - rows.length) [] ++ [call.entries]

lemma length_appendTo {call : Insertion α} (h : rows.length ≤ call.row) :
    (call.appendTo rows).length = call.row + 1 := by
  simp only [appendTo, List.length_append, List.length_replicate, List.length_singleton]
  omega

end Insertion

/-- Inserts the row of a call. -/
def perform (call : Insertion α) : EStateM Error (RowBuilder α) Unit :=
  insertRow call.row call.columns call.values

/-- The builder after a call, whether the row is inserted or not. -/
def attempt (b : RowBuilder α) (call : Insertion α) : RowBuilder α :=
  match (perform call).run b with
  | .ok _ c => c
  | .error _ c => c

/-- The builder after any number of calls. -/
def run (b : RowBuilder α) (calls : List (Insertion α)) : RowBuilder α := calls.foldl attempt b

section Calls
variable {call : Insertion α}

/-- All checks come before the first array is touched. -/
lemma run_insertRow (b : RowBuilder α) (row : Nat) (columns : List Nat) (values : List α) :
    (insertRow row columns values).run b =
      if b.nrows ≤ row then .error (.indexOutOfBounds row b.nrows) b
      else if row < b.nextRow then .error (.malformed (.rowOutOfOrder row (b.nextRow - 1))) b
      else if columns.length ≠ values.length then
        .error (.malformed (.rowLengths row columns.length values.length)) b
      else .ok () ((b.closeRowsUntil row).extend columns values).closeRow := by
  change EStateM.run (ite _ _ _) b = _
  split_ifs <;> rfl

/-- A row that fits is put behind those that are there, after empty ones for those skipped. -/
lemma run_perform_of_fits (ncols : Nat) (h : call.Fits nrows rows.length) :
    (perform call).run (holding nrows ncols rows) =
      .ok () (holding nrows ncols (call.appendTo rows)) := by
  have hinside : ¬ (holding nrows ncols rows).nrows ≤ call.row := Nat.not_le.2 h.inside
  have hbehind : ¬ call.row < (holding nrows ncols rows).nextRow := by
    rw [nextRow_holding]
    exact Nat.not_lt.2 h.behind
  rw [perform, run_insertRow, if_neg hinside, if_neg hbehind, if_neg (not_not.2 h.lengths),
    closeRowsUntil_holding, closeRow_extend_holding h.lengths]
  rfl

/-- A call is rejected for its place or for its lengths, and only for these. -/
lemma run_insertRow_eq_error_iff :
    (∃ e c, (insertRow row columns values).run b = .error e c) ↔
      b.nrows ≤ row ∨ row < b.nextRow ∨ columns.length ≠ values.length := by
  rw [run_insertRow]
  split_ifs with hinside hbehind hlengths
  · exact iff_of_true ⟨_, _, rfl⟩ (.inl hinside)
  · exact iff_of_true ⟨_, _, rfl⟩ (.inr (.inl hbehind))
  · exact iff_of_true ⟨_, _, rfl⟩ (.inr (.inr hlengths))
  · refine iff_of_false ?_ (by simp [hinside, hbehind, hlengths])
    rintro ⟨e, c, h⟩
    cases h

/-- A call that is rejected leaves the builder as it was. -/
lemma eq_of_run_insertRow_eq_error {e : Error}
    (h : (insertRow row columns values).run b = .error e c) : c = b := by
  rw [run_insertRow] at h
  split_ifs at h
  all_goals cases h; rfl

lemma run_perform_of_not_fits (h : ¬ call.Fits b.nrows b.nextRow) :
    ∃ e, (perform call).run b = .error e b := by
  have hrejected : b.nrows ≤ call.row ∨ call.row < b.nextRow ∨
      call.columns.length ≠ call.values.length := by
    by_contra hnone
    simp only [not_or, Nat.not_le, Nat.not_lt, not_not] at hnone
    exact h ⟨hnone.2.1, hnone.1, hnone.2.2⟩
  obtain ⟨e, c, he⟩ := run_insertRow_eq_error_iff.2 hrejected
  exact ⟨e, by rw [perform, he, eq_of_run_insertRow_eq_error he]⟩

lemma attempt_of_fits (h : call.Fits nrows rows.length) :
    (holding nrows ncols rows).attempt call = holding nrows ncols (call.appendTo rows) := by
  rw [attempt, run_perform_of_fits ncols h]

lemma attempt_of_not_fits (h : ¬ call.Fits b.nrows b.nextRow) : b.attempt call = b := by
  obtain ⟨e, he⟩ := run_perform_of_not_fits h
  rw [attempt, he]

/-- After any number of calls the builder holds rows, and not more than it may. -/
lemma exists_run_eq_holding (ncols : Nat) (calls : List (Insertion α)) (h : rows.length ≤ nrows) :
    ∃ more, more.length ≤ nrows ∧
      (holding nrows ncols rows).run calls = holding nrows ncols more := by
  induction calls generalizing rows with
  | nil => exact ⟨rows, h, rfl⟩
  | cons call calls ih =>
    by_cases hfits : call.Fits nrows rows.length
    · have hlen : (call.appendTo rows).length ≤ nrows := by
        rw [Insertion.length_appendTo hfits.behind]
        exact hfits.inside
      obtain ⟨more, hmore, hrun⟩ := ih hlen
      exact ⟨more, hmore, (congrArg (run · calls) (attempt_of_fits hfits)).trans hrun⟩
    · obtain ⟨more, hmore, hrun⟩ := ih h
      have hsame : (holding nrows ncols rows).attempt call = holding nrows ncols rows :=
        attempt_of_not_fits (by rwa [nextRow_holding])
      exact ⟨more, hmore, (congrArg (run · calls) hsame).trans hrun⟩

end Calls

/-- Whatever has been inserted or rejected before, a matrix that is finished is well formed and has
the size that was announced. -/
theorem build_run_outcome (calls : List (Insertion α))
    (h : ((new nrows ncols).run calls).build = .ok a) :
    a.WellFormed ∧ a.shape = .matrix nrows ncols := by
  have hnone : ([] : List (List (Nat × α))).length ≤ nrows := Nat.zero_le nrows
  obtain ⟨rows, hrows, hrun⟩ := exists_run_eq_holding ncols calls hnone
  rw [new_eq_holding, hrun, build_holding hrows] at h
  obtain ⟨rfl, ha⟩ := SparseMatrix.ofRows_eq_ok_iff.1 h
  refine ⟨ha, ?_⟩
  rw [SparseMatrix.shape, SparseMatrix.nrows, List.length_append, List.length_replicate,
    Nat.add_sub_cancel' hrows]

section Streaming

/-- The next row is inserted without a check that could fail. -/
lemma insert_holding (h : rows.length < nrows) (entries : List (Nat × α)) :
    (holding nrows ncols rows).insert rows.length (entries.map Prod.fst) (entries.map Prod.snd) =
      .ok (holding nrows ncols (rows ++ [entries])) := by
  have hfits : (Insertion.mk rows.length (entries.map Prod.fst) (entries.map Prod.snd)).Fits nrows
      rows.length := ⟨Nat.le_refl _, h, by simp⟩
  have hrun := run_perform_of_fits ncols hfits
  have hentries : (entries.map Prod.fst).zip (entries.map Prod.snd) = entries :=
    (List.zip_of_prod rfl rfl).symm
  simp only [perform, Insertion.appendTo, Insertion.entries, Nat.sub_self, List.replicate_zero,
    List.append_nil, hentries] at hrun
  rw [insert, hrun]

/-- Rows that are inserted one after the other are put behind those already there. -/
theorem foldlM_insert (ncols : Nat) (rows more : List (List (Nat × α)))
    (h : rows.length + more.length ≤ nrows) :
    (more.zipIdx rows.length).foldlM (fun b p =>
      b.insert p.2 (p.1.map Prod.fst) (p.1.map Prod.snd)) (holding nrows ncols rows) =
      .ok (holding nrows ncols (rows ++ more)) := by
  induction more generalizing rows with
  | nil =>
    rw [List.append_nil]
    rfl
  | cons entries more ih =>
    rw [List.length_cons] at h
    have hrest := ih (rows ++ [entries]) (by simp; omega)
    rw [List.length_append, List.length_singleton, List.append_assoc, List.singleton_append]
      at hrest
    rw [List.zipIdx_cons, List.foldlM_cons, insert_holding (by omega)]
    exact hrest

/-- A matrix that is built from all its rows has these rows. -/
theorem foldlM_insert_build (ncols : Nat) (rows : List (List (Nat × α))) :
    (do
      let b ← rows.zipIdx.foldlM (fun b p =>
        b.insert p.2 (p.1.map Prod.fst) (p.1.map Prod.snd)) (new rows.length ncols)
      b.build) = SparseMatrix.ofRows ncols rows := by
  have hrows : ([] : List (List (Nat × α))).length + rows.length ≤ rows.length := by simp
  have h := foldlM_insert ncols [] rows hrows
  rw [List.length_nil, List.nil_append] at h
  rw [new_eq_holding, h]
  change (holding rows.length ncols rows).build = _
  rw [build_holding (Nat.le_refl _), Nat.sub_self, List.replicate_zero, List.append_nil]

end Streaming

end BlockSparse.RowBuilder
