import BlockSparse.Proofs.Sparse.RowBuilder
import Mathlib.Data.List.Range

/-! What comes of a run of insertions. The calls that are accepted go down the matrix, so each row
is inserted at most once. The finished matrix has the accepted rows where they were inserted and
empty rows everywhere else, and it depends on nothing but the accepted rows that have entries. -/
namespace BlockSparse.RowBuilder
variable {α : Type} {b : RowBuilder α} {a : SparseMatrix α} {nrows ncols next : Nat}
  {rows : List (List (Nat × α))} {call : Insertion α} {calls others : List (Insertion α)}

/-- Calls of which each fits below the one before it, the first of them not above a given row. -/
inductive InOrder (nrows : Nat) : Nat → List (Insertion α) → Prop
  | nil {next : Nat} : InOrder nrows next []
  | cons {next : Nat} {call : Insertion α} {calls : List (Insertion α)}
    (fits : call.Fits nrows next) (rest : InOrder nrows (call.row + 1) calls) :
    InOrder nrows next (call :: calls)

/-- The entries of a row, if it is among those inserted. -/
def rowAt (calls : List (Insertion α)) (r : Nat) : List (Nat × α) :=
  match calls.find? (·.row = r) with
  | some call => call.entries
  | none => []

/-- All rows of a matrix into which rows have been inserted. -/
def rowsOf (nrows : Nat) (calls : List (Insertion α)) : List (List (Nat × α)) :=
  (List.range nrows).map (rowAt calls)

/-- The calls that insert entries. -/
def storing (calls : List (Insertion α)) : List (Insertion α) :=
  calls.filter (!·.columns.isEmpty)

namespace InOrder

lemma fits_of_mem (h : InOrder nrows next calls) (hcall : call ∈ calls) :
    call.Fits nrows next := by
  induction h with
  | nil => exact absurd hcall List.not_mem_nil
  | cons fits _ ih =>
    rcases List.mem_cons.1 hcall with rfl | hcall
    · exact fits
    · obtain ⟨hbehind, hinside, hlengths⟩ := ih hcall
      exact ⟨Nat.le_trans fits.behind (Nat.le_of_succ_le hbehind), hinside, hlengths⟩

lemma rowAt_eq_nil (h : InOrder nrows next calls) {r : Nat} (hr : r < next) :
    rowAt calls r = [] := by
  have hnone : calls.find? (·.row = r) = none := by
    refine List.find?_eq_none.2 fun call hcall => ?_
    have hbehind := (h.fits_of_mem hcall).behind
    simp only [decide_eq_true_eq]
    omega
  rw [rowAt, hnone]

end InOrder

lemma map_rowAt_eq_replicate {start n : Nat}
    (h : ∀ r, start ≤ r ∧ r < start + n → rowAt calls r = []) :
    (List.range' start n).map (rowAt calls) = List.replicate n [] := by
  refine List.eq_replicate_iff.2 ⟨by simp, fun entries hentries => ?_⟩
  obtain ⟨r, hr, rfl⟩ := List.mem_map.1 hentries
  exact h r (List.mem_range'_1.1 hr)

lemma rowAt_cons_self : rowAt (call :: calls) call.row = call.entries := by
  simp [rowAt]

lemma rowAt_cons_of_ne {r : Nat} (h : call.row ≠ r) :
    rowAt (call :: calls) r = rowAt calls r := by
  simp [rowAt, h]

namespace InOrder

/-- Among calls in order there is one for each row at most. -/
lemma rowAt_of_mem (h : InOrder nrows next calls) (hcall : call ∈ calls) :
    rowAt calls call.row = call.entries := by
  induction h with
  | nil => exact absurd hcall List.not_mem_nil
  | @cons next first calls _ rest ih =>
    rcases List.mem_cons.1 hcall with rfl | hcall
    · exact rowAt_cons_self
    · have hbehind := (rest.fits_of_mem hcall).behind
      rw [rowAt_cons_of_ne (by omega), ih hcall]

lemma mono (h : InOrder nrows next calls) {lower : Nat} (hle : lower ≤ next) :
    InOrder nrows lower calls := by
  cases h with
  | nil => exact .nil
  | cons fits rest => exact .cons ⟨Nat.le_trans hle fits.behind, fits.inside, fits.lengths⟩ rest

lemma filter (h : InOrder nrows next calls) (p : Insertion α → Bool) :
    InOrder nrows next (calls.filter p) := by
  induction h with
  | nil => exact .nil
  | @cons next call calls fits _ ih =>
    by_cases hp : p call = true
    · rw [List.filter_cons_of_pos hp]
      exact .cons fits ih
    · rw [List.filter_cons_of_neg hp]
      exact ih.mono (Nat.le_succ_of_le fits.behind)

lemma storing (h : InOrder nrows next calls) : InOrder nrows next (storing calls) := h.filter _

/-- The number of rows is one more than the last row inserted. -/
lemma length_foldl_appendTo (h : InOrder nrows next calls) (hnext : rows.length = next) :
    (calls.foldl Insertion.appendTo rows).length = calls.getLast?.elim next (·.row + 1) := by
  induction h generalizing rows with
  | nil => exact hnext
  | @cons next call calls fits _ ih =>
    have hlen : (call.appendTo rows).length = call.row + 1 :=
      Insertion.length_appendTo (hnext ▸ fits.behind)
    rw [List.foldl_cons, ih hlen, List.getLast?_cons]
    cases calls.getLast? <;> rfl

lemma length_foldl_le (h : InOrder nrows next calls) (hnext : rows.length = next)
    (hle : next ≤ nrows) : (calls.foldl Insertion.appendTo rows).length ≤ nrows := by
  rw [h.length_foldl_appendTo hnext]
  cases hlast : calls.getLast? with
  | none => exact hle
  | some call => exact (h.fits_of_mem (List.mem_of_getLast? hlast)).inside

/-- Rows inserted in order, followed by empty ones, are the rows of the finished matrix. -/
lemma foldl_appendTo (h : InOrder nrows next calls) (hnext : rows.length = next)
    (hle : next ≤ nrows) :
    calls.foldl Insertion.appendTo rows ++
        List.replicate (nrows - (calls.foldl Insertion.appendTo rows).length) [] =
      rows ++ (List.range' next (nrows - next)).map (rowAt calls) := by
  induction h generalizing rows with
  | nil => rw [← hnext, map_rowAt_eq_replicate fun _ _ => rfl, List.foldl_nil]
  | @cons next call calls fits rest ih =>
    have hlen : (call.appendTo rows).length = call.row + 1 :=
      Insertion.length_appendTo (hnext ▸ fits.behind)
    -- the rows skipped, the row of the call, and those below it
    have hrange : List.range' next (nrows - next) = List.range' next (call.row - next) ++
        call.row :: List.range' (call.row + 1) (nrows - (call.row + 1)) := by
      obtain ⟨hbehind, hinside, _⟩ := fits
      have hstart : call.row = next + (call.row - next) := by omega
      have hcount : nrows - next = (call.row - next) + (nrows - (call.row + 1) + 1) := by omega
      rw [hcount, ← List.range'_append_1, ← hstart, List.range'_succ]
    have hskipped : (List.range' next (call.row - next)).map (rowAt (call :: calls)) =
        List.replicate (call.row - next) [] := by
      refine map_rowAt_eq_replicate fun r hr => ?_
      have hrow : r < call.row := by omega
      have hfirst : InOrder nrows call.row (call :: calls) :=
        .cons ⟨Nat.le_refl _, fits.inside, fits.lengths⟩ rest
      exact hfirst.rowAt_eq_nil hrow
    have hbelow : (List.range' (call.row + 1) (nrows - (call.row + 1))).map
        (rowAt (call :: calls)) =
        (List.range' (call.row + 1) (nrows - (call.row + 1))).map (rowAt calls) :=
      List.map_congr_left fun r hr => rowAt_cons_of_ne
        (Nat.ne_of_lt (Nat.lt_of_succ_le (List.mem_range'_1.1 hr).1))
    rw [List.foldl_cons, ih hlen fits.inside, hrange, List.map_append, List.map_cons,
      rowAt_cons_self, hskipped, hbelow, Insertion.appendTo, hnext, List.append_assoc,
      List.append_assoc, List.singleton_append]

end InOrder

/-- A row is not among those inserted, or it is that of one of the calls. -/
lemma rowAt_cases (calls : List (Insertion α)) (r : Nat) :
    ((∀ call ∈ calls, call.row ≠ r) ∧ rowAt calls r = []) ∨
      ∃ call ∈ calls, call.row = r ∧ rowAt calls r = call.entries := by
  cases hfind : calls.find? (·.row = r) with
  | none =>
    refine .inl ⟨fun call hcall => ?_, by rw [rowAt, hfind]⟩
    simpa using List.find?_eq_none.1 hfind call hcall
  | some call =>
    refine .inr ⟨call, List.mem_of_find?_eq_some hfind, ?_, by rw [rowAt, hfind]⟩
    simpa using List.find?_some hfind

/-- Rows without entries may be inserted or skipped. -/
lemma InOrder.rowsOf_storing (h : InOrder nrows next calls) :
    rowsOf nrows (RowBuilder.storing calls) = rowsOf nrows calls := by
  refine List.map_congr_left fun r _ => ?_
  rcases rowAt_cases (RowBuilder.storing calls) r with ⟨hnone, hrow⟩ | ⟨call, hcall, rfl, hrow⟩
  · rw [hrow]
    rcases rowAt_cases calls r with ⟨_, hrow'⟩ | ⟨call, hcall, rfl, hrow'⟩
    · rw [hrow']
    · have hempty : call.columns = [] := by
        by_contra hne
        exact hnone call (List.mem_filter.2 ⟨hcall, by simpa using hne⟩) rfl
      rw [hrow', Insertion.entries, hempty, List.zip_nil_left]
  · rw [hrow, h.rowAt_of_mem (List.mem_filter.1 hcall).1]

/-- The calls of a run that are accepted. -/
def accepted (b : RowBuilder α) : List (Insertion α) → List (Insertion α)
  | [] => []
  | call :: calls =>
    match (perform call).run b with
    | .ok _ c => call :: accepted c calls
    | .error _ c => accepted c calls

/-- After a run, a builder holds the rows of the accepted calls, which are in order. -/
theorem run_holding (nrows ncols : Nat) (calls : List (Insertion α))
    (rows : List (List (Nat × α))) :
    InOrder nrows rows.length ((holding nrows ncols rows).accepted calls) ∧
      (holding nrows ncols rows).run calls = holding nrows ncols
        (((holding nrows ncols rows).accepted calls).foldl Insertion.appendTo rows) := by
  induction calls generalizing rows with
  | nil => exact ⟨.nil, rfl⟩
  | cons call calls ih =>
    by_cases hfits : call.Fits nrows rows.length
    · obtain ⟨horder, hrun⟩ := ih (call.appendTo rows)
      rw [Insertion.length_appendTo hfits.behind] at horder
      have hfirst : (holding nrows ncols rows).accepted (call :: calls) =
          call :: (holding nrows ncols (call.appendTo rows)).accepted calls := by
        rw [accepted, run_perform_of_fits ncols hfits]
      rw [hfirst]
      exact ⟨.cons hfits horder, (congrArg (run · calls) (attempt_of_fits hfits)).trans hrun⟩
    · obtain ⟨horder, hrun⟩ := ih rows
      have hnot : ¬ call.Fits (holding nrows ncols rows).nrows
          (holding nrows ncols rows).nextRow := by
        rwa [nextRow_holding]
      have hfirst : (holding nrows ncols rows).accepted (call :: calls) =
          (holding nrows ncols rows).accepted calls := by
        obtain ⟨e, he⟩ := run_perform_of_not_fits hnot
        rw [accepted, he]
      rw [hfirst]
      exact ⟨horder, (congrArg (run · calls) (attempt_of_not_fits hnot)).trans hrun⟩

lemma accepted_of_inOrder (ncols : Nat) (h : InOrder nrows next calls)
    (hnext : rows.length = next) : (holding nrows ncols rows).accepted calls = calls := by
  induction h generalizing rows with
  | nil => rfl
  | @cons next call calls fits _ ih =>
    subst hnext
    rw [accepted, run_perform_of_fits ncols fits]
    exact congrArg (call :: ·) (ih (Insertion.length_appendTo fits.behind))

section New

lemma inOrder_accepted (nrows ncols : Nat) (calls : List (Insertion α)) :
    InOrder nrows 0 ((new nrows ncols).accepted calls) :=
  (run_holding nrows ncols calls []).1

lemma accepted_new_of_inOrder (ncols : Nat) (h : InOrder nrows 0 calls) :
    (new nrows ncols).accepted calls = calls := by
  have hnone : ([] : List (List (Nat × α))).length = 0 := rfl
  exact accepted_of_inOrder ncols h hnone

lemma nrows_run (nrows ncols : Nat) (calls : List (Insertion α)) :
    ((new nrows ncols).run calls).nrows = nrows := by
  rw [new_eq_holding, (run_holding nrows ncols calls []).2]
  rfl

lemma nextRow_run (nrows ncols : Nat) (calls : List (Insertion α)) :
    ((new nrows ncols).run calls).nextRow =
      ((new nrows ncols).accepted calls).getLast?.elim 0 (·.row + 1) := by
  obtain ⟨horder, hrun⟩ := run_holding nrows ncols calls []
  rw [new_eq_holding, hrun, nextRow_holding, horder.length_foldl_appendTo rfl]
  rfl

lemma nextRow_run_le (nrows ncols : Nat) (calls : List (Insertion α)) :
    ((new nrows ncols).run calls).nextRow ≤ nrows := by
  obtain ⟨horder, hrun⟩ := run_holding nrows ncols calls []
  rw [new_eq_holding, hrun, nextRow_holding]
  exact horder.length_foldl_le rfl (Nat.zero_le nrows)

/-- What is built depends on the accepted calls alone. -/
lemma build_run (nrows ncols : Nat) (calls : List (Insertion α)) :
    ((new nrows ncols).run calls).build =
      SparseMatrix.ofRows ncols (rowsOf nrows ((new nrows ncols).accepted calls)) := by
  obtain ⟨horder, hrun⟩ := run_holding nrows ncols calls []
  rw [new_eq_holding, hrun, build_holding (horder.length_foldl_le rfl (Nat.zero_le nrows)),
    horder.foldl_appendTo rfl (Nat.zero_le nrows), List.nil_append, List.length_nil, Nat.sub_zero,
    ← List.range_eq_range']
  rfl

lemma build_run_of_inOrder (ncols : Nat) (h : InOrder nrows 0 calls) :
    ((new nrows ncols).run calls).build = SparseMatrix.ofRows ncols (rowsOf nrows calls) := by
  rw [build_run, accepted_new_of_inOrder ncols h]

/-- Of calls in order, those without entries may be left out. -/
lemma build_run_storing (ncols : Nat) (h : InOrder nrows 0 calls) :
    ((new nrows ncols).run (storing calls)).build = ((new nrows ncols).run calls).build := by
  rw [build_run_of_inOrder ncols h.storing, build_run_of_inOrder ncols h, h.rowsOf_storing]

end New

section Rows

lemma Insertion.Fits.map_fst_entries (h : call.Fits nrows next) :
    call.entries.map Prod.fst = call.columns := List.map_fst_zip (Nat.le_of_eq h.lengths)

lemma Insertion.Fits.map_snd_entries (h : call.Fits nrows next) :
    call.entries.map Prod.snd = call.values := List.map_snd_zip (Nat.le_of_eq h.lengths.symm)

/-- The rows are well formed when the accepted calls have ascending columns inside the matrix. -/
lemma InOrder.wellFormed_iff (h : InOrder nrows next calls) :
    SparseMatrix.WellFormed ⟨ncols, rowsOf nrows calls⟩ ↔
      ∀ call ∈ calls, Ascending call.columns ∧ ∀ j ∈ call.columns, j < ncols := by
  constructor
  · intro hrows call hcall
    have hfits := h.fits_of_mem hcall
    have hrow := hrows (rowAt calls call.row)
      (List.mem_map_of_mem (List.mem_range.2 hfits.inside))
    rwa [h.rowAt_of_mem hcall, SparseMatrix.RowWellFormed, hfits.map_fst_entries] at hrow
  · intro hcalls entries hentries
    obtain ⟨r, _, rfl⟩ := List.mem_map.1 hentries
    rcases rowAt_cases calls r with ⟨_, hrow⟩ | ⟨call, hcall, _, hrow⟩
    · rw [hrow]
      exact ⟨List.Pairwise.nil, fun j hj => absurd hj List.not_mem_nil⟩
    · rw [hrow, SparseMatrix.RowWellFormed, (h.fits_of_mem hcall).map_fst_entries]
      exact hcalls call hcall

lemma row_rowsOf (ncols : Nat) (calls : List (Insertion α)) {r : Nat} (hr : r < nrows) :
    SparseMatrix.row ⟨ncols, rowsOf nrows calls⟩ r = rowAt calls r := by
  simp [SparseMatrix.row, rowsOf, hr]

lemma row_rowsOf_of_none (hnone : ∀ call ∈ calls, call.row ≠ next) :
    SparseMatrix.row ⟨ncols, rowsOf nrows calls⟩ next = [] := by
  by_cases hr : next < nrows
  · rw [row_rowsOf ncols calls hr]
    rcases rowAt_cases calls next with ⟨_, hrow⟩ | ⟨call, hcall, heq, _⟩
    · exact hrow
    · exact absurd heq (hnone call hcall)
  · rw [SparseMatrix.row, rowsOf, List.getElem?_eq_none (by simpa using hr)]
    rfl

end Rows

section Matrices

/-- The calls that insert all rows of a matrix from top to bottom. -/
def insertionsOf (a : SparseMatrix α) : List (Insertion α) :=
  a.rows.zipIdx.map fun p => ⟨p.2, p.1.map Prod.fst, p.1.map Prod.snd⟩

lemma inOrder_insertionsOf (a : SparseMatrix α) : InOrder a.nrows 0 (insertionsOf a) := by
  have hfrom : ∀ (rows : List (List (Nat × α))) (start : Nat),
      InOrder (start + rows.length) start ((rows.zipIdx start).map fun p =>
        ⟨p.2, p.1.map Prod.fst, p.1.map Prod.snd⟩) := by
    intro rows
    induction rows with
    | nil => exact fun _ => .nil
    | cons entries rows ih =>
      intro start
      have hrest := ih (start + 1)
      rw [Nat.add_right_comm] at hrest
      exact .cons ⟨Nat.le_refl _, by simp, by simp⟩ hrest
  have h := hfrom a.rows 0
  rwa [Nat.zero_add] at h

lemma rowsOf_insertionsOf (a : SparseMatrix α) : rowsOf a.nrows (insertionsOf a) = a.rows := by
  apply List.ext_getElem
  · simp [rowsOf, SparseMatrix.nrows]
  · intro r _ hr
    have hcall : (Insertion.mk r (a.rows[r].map Prod.fst) (a.rows[r].map Prod.snd)) ∈
        insertionsOf a := by
      refine List.mem_map.2 ⟨(a.rows[r], r), ?_, rfl⟩
      rw [List.mem_zipIdx_iff_getElem?]
      exact List.getElem?_eq_getElem hr
    have hrow := (inOrder_insertionsOf a).rowAt_of_mem hcall
    have hentries : (a.rows[r].map Prod.fst).zip (a.rows[r].map Prod.snd) = a.rows[r] :=
      (List.zip_of_prod rfl rfl).symm
    rw [Insertion.entries, hentries] at hrow
    simpa [rowsOf] using hrow

lemma build_insertionsOf {a : SparseMatrix α} (ha : a.WellFormed) :
    ((new a.nrows a.ncols).run (insertionsOf a)).build = .ok a := by
  rw [build_run_of_inOrder a.ncols (inOrder_insertionsOf a), rowsOf_insertionsOf]
  exact SparseMatrix.ofRows_eq_ok_iff.2 ⟨rfl, ha⟩

end Matrices

/-- What comes of any calls. A call is rejected exactly if its row is outside of the matrix or above
the next one, or if its lists do not match, and then it changes nothing. The next row is the one
behind the last that was accepted. The matrix can be finished exactly if the columns of all accepted
rows ascend strictly inside of it, and then it has these rows and no other entries; neither rejected
calls nor rows without entries matter. A matrix that is inserted row by row, with its empty rows or
without, comes out again. -/
theorem run_outcome (nrows ncols : Nat) (calls : List (Insertion α)) :
    let start : RowBuilder α := new nrows ncols
    let b := start.run calls
    (∀ row columns values,
      (∃ e c, (insertRow row columns values).run b = .error e c) ↔
        nrows ≤ row ∨ row < b.nextRow ∨ columns.length ≠ values.length) ∧
    (∀ row columns values e c, (insertRow row columns values).run b = .error e c → c = b) ∧
    b.nextRow = (start.accepted calls).getLast?.elim 0 (·.row + 1) ∧ b.nextRow ≤ nrows ∧
    ((∃ a, b.build = .ok a) ↔
      ∀ call ∈ start.accepted calls, Ascending call.columns ∧ ∀ j ∈ call.columns, j < ncols) ∧
    (∀ a, b.build = .ok a → a.nrows = nrows ∧ a.ncols = ncols ∧
      (∀ call ∈ start.accepted calls,
        (a.row call.row).map Prod.fst = call.columns ∧
          (a.row call.row).map Prod.snd = call.values) ∧
      ∀ r, (∀ call ∈ start.accepted calls, call.row ≠ r) → a.row r = []) ∧
    (∀ others, storing (start.accepted others) = storing (start.accepted calls) →
      (start.run others).build = b.build) ∧
    (start.run (storing (start.accepted calls))).build = b.build ∧
    ∀ a : SparseMatrix α, a.WellFormed →
      ((new a.nrows a.ncols).run (insertionsOf a)).build = .ok a ∧
        ((new a.nrows a.ncols).run (storing (insertionsOf a))).build = .ok a := by
  intro start b
  have horder : InOrder nrows 0 (start.accepted calls) := inOrder_accepted nrows ncols calls
  have hnrows : b.nrows = nrows := nrows_run nrows ncols calls
  have hbuild : b.build = SparseMatrix.ofRows ncols (rowsOf nrows (start.accepted calls)) :=
    build_run nrows ncols calls
  refine ⟨fun row columns values => ?rejected,
    fun row columns values e c h => eq_of_run_insertRow_eq_error h,
    nextRow_run nrows ncols calls, ?bounded, ?finished, fun a ha => ?rows,
    fun others hothers => ?others, ?storing, fun a ha => ⟨build_insertionsOf ha, ?matrix⟩⟩
  case rejected =>
    rw [run_insertRow_eq_error_iff, hnrows]
  case bounded =>
    exact nextRow_run_le nrows ncols calls
  case finished =>
    rw [hbuild]
    constructor
    · rintro ⟨a, ha⟩
      obtain ⟨rfl, hrows⟩ := SparseMatrix.ofRows_eq_ok_iff.1 ha
      exact horder.wellFormed_iff.1 hrows
    · intro hcalls
      exact ⟨_, SparseMatrix.ofRows_eq_ok_iff.2 ⟨rfl, horder.wellFormed_iff.2 hcalls⟩⟩
  case rows =>
    rw [hbuild] at ha
    obtain ⟨rfl, _⟩ := SparseMatrix.ofRows_eq_ok_iff.1 ha
    refine ⟨by simp [SparseMatrix.nrows, rowsOf], rfl, fun call hcall => ?_,
      fun r hr => row_rowsOf_of_none hr⟩
    have hfits := horder.fits_of_mem hcall
    rw [row_rowsOf ncols _ hfits.inside, horder.rowAt_of_mem hcall]
    exact ⟨hfits.map_fst_entries, hfits.map_snd_entries⟩
  case others =>
    have hrows : rowsOf nrows (start.accepted others) = rowsOf nrows (start.accepted calls) := by
      rw [← horder.rowsOf_storing, ← hothers, (inOrder_accepted nrows ncols others).rowsOf_storing]
    rw [hbuild, build_run, hrows]
  case storing =>
    rw [hbuild, build_run_storing ncols horder, build_run_of_inOrder ncols horder]
  case matrix =>
    rw [build_run_storing a.ncols (inOrder_insertionsOf a), build_insertionsOf ha]

/-- A call that goes back is rejected, and what was inserted around it makes a matrix. -/
theorem run_outcome_goingBack :
    let calls : List (Insertion Nat) := [⟨1, [0, 2], [5, 0]⟩, ⟨0, [1], [4]⟩, ⟨2, [], []⟩]
    ((new 4 3).accepted calls).map Insertion.row = [1, 2] ∧
      ((new 4 3).run calls).nextRow = 3 ∧ ∃ a, ((new 4 3).run calls).build = .ok a := by
  intro calls
  obtain ⟨_, _, hnext, _, hbuild, _⟩ := run_outcome 4 3 calls
  exact ⟨rfl, hnext, hbuild.2 (by decide)⟩

end BlockSparse.RowBuilder
