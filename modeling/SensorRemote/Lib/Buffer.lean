import Mathlib.Data.List.Basic
import Mathlib.Data.Nat.Notation
import Mathlib.Tactic.Common

/-!
# Buffers that are filled in order

A program that makes a picture allocates a buffer and fills it from its first byte to its last:
a loop over the rows, in each a loop over the columns, and every round writes the block that
comes next. `Fills done block program` says that the program does so: behind `done` it puts
`block` and leaves the rest of the buffer. What loops write is put together from what their
rounds write (`Fills.times`), whatever was in the buffer before, and that no index is out of
bounds comes with it.

A buffer that consists of blocks of one length is read block by block (`blockAt_flatMap`).
-/

namespace Buffer

universe u v

variable {α : Type u} {σ : Type v}

/-! ## Programs over buffers -/

/-- The elements from `start` to `stop`; no value if they are not all there. -/
def slice (buffer : List α) (start stop : ℕ) : Option (List α) :=
  if start ≤ stop ∧ stop ≤ buffer.length then some ((buffer.drop start).take (stop - start))
  else none

/-- The block written over the elements from `start` on; no value if it does not fit. -/
def splice (buffer : List α) (start : ℕ) (block : List α) : Option (List α) :=
  if start + block.length ≤ buffer.length then
    some (buffer.take start ++ block ++ buffer.drop (start + block.length))
  else none

/-- A loop of `n` rounds. -/
def times (n : ℕ) (body : ℕ → σ → Option σ) (s : σ) : Option σ :=
  (List.range n).foldlM (fun s k => body k s) s

/-- A loop over the numbers from `start` to `stop`. -/
def fromTo (start stop : ℕ) (body : ℕ → σ → Option σ) (s : σ) : Option σ :=
  times (stop - start) (fun k => body (start + k)) s

/-- A loop over the multiples of `step` below `stop`. -/
def stepBy (stop step : ℕ) (body : ℕ → σ → Option σ) (s : σ) : Option σ :=
  times ((stop + step - 1) / step) (fun k => body (k * step)) s

/-- A slice has a value exactly where its bounds are in the buffer. -/
theorem slice_eq_some {buffer part : List α} {start stop : ℕ} :
    slice buffer start stop = some part ↔ start ≤ stop ∧ stop ≤ buffer.length ∧
      (buffer.drop start).take (stop - start) = part := by
  rw [slice]
  split
  · rename_i h
    simp [h]
  · rename_i h
    refine iff_of_false (by rintro ⟨⟩) fun hslice => h ⟨hslice.1, hslice.2.1⟩

@[simp] theorem times_zero (body : ℕ → σ → Option σ) (s : σ) : times 0 body s = some s := rfl

/-- The last round of a loop comes after the others. -/
theorem times_succ (n : ℕ) (body : ℕ → σ → Option σ) (s : σ) :
    times (n + 1) body s = (times n body s).bind (body n) := by
  rw [times, List.range_succ, List.foldlM_append]
  simp [times]

/-- A loop over multiples is one over their number. -/
theorem stepBy_eq_times {stop step : ℕ} (hstep : 0 < step) (h : stop % step = 0)
    (body : ℕ → σ → Option σ) :
    stepBy stop step body = times (stop / step) fun k => body (k * step) := by
  obtain ⟨n, rfl⟩ := Nat.dvd_of_mod_eq_zero h
  have hround : (step * n + step - 1) / step = n := by
    rw [Nat.add_sub_assoc hstep, Nat.mul_add_div hstep, Nat.div_eq_of_lt (by omega), Nat.add_zero]
  funext s
  rw [stepBy, hround, Nat.mul_div_cancel_left n hstep]

/-! ## What is written -/

/-- Behind `done` the program puts the block, where there is room for it. -/
def Fills (done block : List α) (program : List α → Option (List α)) : Prop :=
  ∀ rest, block.length ≤ rest.length →
    program (done ++ rest) = some (done ++ block ++ rest.drop block.length)

namespace Fills

variable {done block block' : List α} {program program' : List α → Option (List α)}

/-- A program that writes nothing fills nothing. -/
theorem nil : Fills done [] some := fun rest _ => by simp

/-- Writing a block behind what is done fills it. -/
theorem splice (done block : List α) :
    Fills done block fun buffer => splice buffer done.length block := by
  intro rest hroom
  have hfits : done.length + block.length ≤ (done ++ rest).length := by
    rw [List.length_append]
    omega
  have hdrop : (done ++ rest).drop (done.length + block.length) = rest.drop block.length := by
    rw [List.drop_append]
    simp
  simp only [Buffer.splice, if_pos hfits, List.take_left, hdrop]

theorem spliceAt {start : ℕ} (h : done.length = start) (block : List α) :
    Fills done block fun buffer => Buffer.splice buffer start block :=
  h ▸ splice done block

/-- One program after the other fills one block after the other. -/
theorem seq (h : Fills done block program) (h' : Fills (done ++ block) block' program') :
    Fills done (block ++ block') fun buffer => (program buffer).bind program' := by
  intro rest hroom
  rw [List.length_append] at hroom
  have hroom' : block'.length ≤ (rest.drop block.length).length := by
    rw [List.length_drop]
    omega
  simp only [h rest (by omega), Option.bind_some, h' _ hroom', List.drop_drop, List.length_append]
  rw [List.append_assoc done]

/-- A loop writes what its rounds write. -/
theorem times {n : ℕ} {body : ℕ → List α → Option (List α)} {block : ℕ → List α}
    (hbody : ∀ k < n, Fills (done ++ (List.range k).flatMap block) (block k) (body k)) :
    Fills done ((List.range n).flatMap block) (times n body) := by
  induction n with
  | zero => exact nil
  | succ n ih =>
    have hloop := (ih fun k hk => hbody k (by omega)).seq (hbody n (Nat.lt_succ_self n))
    intro rest hroom
    rw [times_succ, List.range_succ, List.flatMap_append, List.flatMap_singleton]
    rw [List.range_succ, List.flatMap_append, List.flatMap_singleton] at hroom
    exact hloop rest hroom

/-- A program that fills a whole buffer. -/
theorem whole (h : Fills [] block program) (buffer : List α)
    (hlength : buffer.length = block.length) : program buffer = some block := by
  have hrun := h buffer (Nat.le_of_eq hlength.symm)
  rwa [List.nil_append, List.nil_append, List.drop_of_length_le (Nat.le_of_eq hlength),
    List.append_nil] at hrun

end Fills

/-! ## Blocks of one length -/

/-- The `i`th block of `w` elements. -/
def blockAt (w : ℕ) (buffer : List α) (i : ℕ) : List α := (buffer.drop (i * w)).take w

variable {w n i : ℕ} {block : ℕ → List α}

theorem length_blockAt {buffer : List α} (h : (i + 1) * w ≤ buffer.length) :
    (blockAt w buffer i).length = w := by
  rw [Nat.add_mul, Nat.one_mul] at h
  rw [blockAt, List.length_take, List.length_drop]
  omega

theorem length_flatMap_range (hblock : ∀ i < n, (block i).length = w) :
    ((List.range n).flatMap block).length = n * w := by
  induction n with
  | zero => simp
  | succ n ih =>
    rw [List.range_succ, List.flatMap_append, List.flatMap_singleton, List.length_append,
      ih fun i hi => hblock i (by omega), hblock n (Nat.lt_succ_self n), Nat.add_mul, Nat.one_mul]

/-- What stands before the `i`th block, the block, and what stands behind it. -/
theorem flatMap_range_split (block : ℕ → List α) (hi : i < n) :
    ∃ behind, (List.range n).flatMap block =
    (List.range i).flatMap block ++ (block i ++ behind) := by
  obtain ⟨m, rfl⟩ := Nat.exists_eq_add_of_lt hi
  induction m with
  | zero => exact ⟨[], by simp [List.range_succ]⟩
  | succ m ih =>
    obtain ⟨behind, heq⟩ := ih (by omega)
    refine ⟨behind ++ block (i + m + 1), ?_⟩
    rw [show i + (m + 1) + 1 = i + m + 1 + 1 by omega, List.range_succ, List.flatMap_append,
      List.flatMap_singleton, heq, List.append_assoc, List.append_assoc]

theorem drop_flatMap_range (hblock : ∀ i < n, (block i).length = w) (hi : i < n) :
    ∃ behind, ((List.range n).flatMap block).drop (i * w) = block i ++ behind := by
  obtain ⟨behind, heq⟩ := flatMap_range_split block hi
  refine ⟨behind, ?_⟩
  have hlength : ((List.range i).flatMap block).length = i * w :=
    length_flatMap_range fun j hj => hblock j (by omega)
  rw [heq, ← hlength, List.drop_left]

/-- Blocks of one width stand one after the other. -/
theorem blockAt_flatMap (hblock : ∀ i < n, (block i).length = w) (hi : i < n) :
    blockAt w ((List.range n).flatMap block) i = block i := by
  obtain ⟨behind, heq⟩ := drop_flatMap_range hblock hi
  rw [blockAt, heq, ← hblock i hi, List.take_left]

/-- A buffer is the sequence of its blocks. -/
theorem flatMap_blockAt {buffer : List α} (h : buffer.length = n * w) :
    (List.range n).flatMap (blockAt w buffer) = buffer := by
  have htake : ∀ m ≤ n, (List.range m).flatMap (blockAt w buffer) = buffer.take (m * w) := by
    intro m hm
    induction m with
    | zero => simp
    | succ m ih =>
      rw [List.range_succ, List.flatMap_append, List.flatMap_singleton, ih (by omega), blockAt,
        Nat.add_mul, Nat.one_mul, List.take_add]
  rw [htake n (Nat.le_refl n), ← h, List.take_length]

/-- Rows of blocks are a sequence of blocks. -/
theorem flatMap_rows (rows columns : ℕ) (block : ℕ → List α) :
    ((List.range rows).flatMap fun y => (List.range columns).flatMap fun x =>
        block (y * columns + x)) = (List.range (rows * columns)).flatMap block := by
  induction rows with
  | zero => simp
  | succ rows ih =>
    rw [List.range_succ, List.flatMap_append, List.flatMap_singleton, ih, Nat.add_mul, Nat.one_mul,
      List.range_add, List.flatMap_append, List.flatMap_map]

/-! ## Grids of blocks -/

/-- The blocks of a grid, row by row. -/
def grid (rows columns : ℕ) (block : ℕ → ℕ → List α) : List α :=
  (List.range rows).flatMap fun y => (List.range columns).flatMap (block y)

section Grid

variable {rows columns : ℕ} {block block' : ℕ → ℕ → List α} {x y : ℕ}

/-- Grids with the same blocks are the same. -/
theorem grid_congr (h : ∀ y < rows, ∀ x < columns, block y x = block' y x) :
    grid rows columns block = grid rows columns block' :=
  List.flatMap_congr fun y hy => List.flatMap_congr fun x hx =>
    h y (List.mem_range.mp hy) x (List.mem_range.mp hx)

theorem length_grid (hblock : ∀ y < rows, ∀ x < columns, (block y x).length = w) :
    (grid rows columns block).length = rows * columns * w := by
  rw [grid, length_flatMap_range fun y hy => length_flatMap_range (hblock y hy), Nat.mul_assoc]

/-- Where a block of a grid is. -/
theorem cell_lt (hy : y < rows) (hx : x < columns) : y * columns + x < rows * columns := by
  have hrow : (y + 1) * columns ≤ rows * columns := Nat.mul_le_mul_right columns hy
  rw [Nat.add_mul, Nat.one_mul] at hrow
  omega

/-- A grid is a sequence of blocks. -/
theorem grid_eq_flatMap : grid rows columns block =
    (List.range (rows * columns)).flatMap fun k => block (k / columns) (k % columns) := by
  rw [← flatMap_rows]
  refine grid_congr fun y _ x hx => ?_
  rw [Nat.mul_comm, Nat.mul_add_div (by omega), Nat.div_eq_of_lt hx, Nat.mul_add_mod,
    Nat.mod_eq_of_lt hx, Nat.add_zero]

/-- The block in a row and a column is where the loops put it. -/
theorem blockAt_grid (hblock : ∀ y < rows, ∀ x < columns, (block y x).length = w) (hy : y < rows)
    (hx : x < columns) : blockAt w (grid rows columns block) (y * columns + x) = block y x := by
  rw [grid_eq_flatMap, blockAt_flatMap (fun k hk => ?_) (cell_lt hy hx)]
  · rw [Nat.mul_comm, Nat.mul_add_div (by omega), Nat.div_eq_of_lt hx, Nat.mul_add_mod,
      Nat.mod_eq_of_lt hx, Nat.add_zero]
  · have hpos : 0 < columns := by omega
    exact hblock _ (Nat.div_lt_of_lt_mul (by rwa [Nat.mul_comm])) _ (Nat.mod_lt _ hpos)

/-- A buffer is the grid of its blocks. -/
theorem grid_blockAt {buffer : List α} (h : buffer.length = rows * columns * w) :
    grid rows columns (fun y x => blockAt w buffer (y * columns + x)) = buffer := by
  rw [grid_eq_flatMap, ← flatMap_blockAt h]
  refine List.flatMap_congr fun k hk => ?_
  rw [flatMap_blockAt h, Nat.mul_comm (k / columns), Nat.div_add_mod]

/-- Two nested loops that put every block where it belongs. -/
theorem Fills.grid {done : List α} (offset : ℕ) {body : ℕ → ℕ → List α → Option (List α)}
    (hblock : ∀ y < rows, ∀ x < columns, (block y x).length = w) (hoffset : done.length = offset)
    (hbody : ∀ y < rows, ∀ x < columns, ∀ buffer,
      body y x buffer = Buffer.splice buffer (offset + (y * columns + x) * w) (block y x)) :
    Fills done (grid rows columns block)
      (Buffer.times rows fun y => Buffer.times columns (body y)) := by
  refine Fills.times fun y hy => Fills.times fun x hx => ?_
  have hrows : ((List.range y).flatMap fun y => (List.range columns).flatMap (block y)).length =
      y * columns * w := by
    rw [length_flatMap_range (w := columns * w) fun i hi =>
      length_flatMap_range (hblock i (by omega)), Nat.mul_assoc]
  have hrow : ((List.range x).flatMap (block y)).length = x * w :=
    length_flatMap_range fun i hi => hblock y hy i (by omega)
  have hlength :
    (done ++ (List.range y).flatMap (fun y => (List.range columns).flatMap (block y)) ++
      (List.range x).flatMap (block y)).length = offset + (y * columns + x) * w := by
    rw [List.length_append, List.length_append, hrows, hrow, hoffset, Nat.add_mul, Nat.add_assoc]
  intro rest hroom
  rw [hbody y hy x hx]
  exact spliceAt hlength _ rest hroom

end Grid

end Buffer
