import PcapEvidence.HistoryQuery
import PcapEvidence.KWayMerge
import PcapEvidence.OrderedMap

/-!
# The external sort of the range index

The placements come in arrival order. They are read in chunks, every chunk is sorted and written as
a run, and the runs are merged through a heap, a bounded number at a time, until one is left. All
files are charged to the disk budget while they exist.
-/

namespace PcapEvidence.History

open Method OrderedMap

/-- The files of the sort and what its check remembers; runs are named by pass and number. -/
structure Workspace (τ : Type) where
  placements : Option (List U8)
  ranges : Option (List U8)
  runs : Option (OrdMap (ℕ ×ₗ ℕ) (List U8))
  quota : DiskBudget
  guard : τ

/-- A call of the sort; it fails with an error, or with none when it runs out of fuel. -/
abbrev SortM (τ α : Type) : Type := Method (Workspace τ) (Option Error) α

namespace SortM

variable {τ α : Type}

def result (r : Result α) : SortM τ α := lift (r.mapError some)

def ofQuota (m : Method DiskBudget Error α) : SortM τ α := fun w =>
  match m w.quota with
  | (r, quota) => (r.mapError some, { w with quota := quota })

def ofCheck (check : Method τ Error Unit) : SortM τ Unit := fun w =>
  match check w.guard with
  | (r, guard) => (r.mapError some, { w with guard := guard })

def checkEvery (check : Method τ Error Unit) (n : ℕ) : SortM τ Unit :=
  if n % 4096 = 0 then ofCheck check else pure ()

def io (detail : String) : SortM τ α := fail (some (Error.io detail))

def directory : SortM τ (OrdMap (ℕ ×ₗ ℕ) (List U8)) := do
  let w ← read
  match w.runs with
  | some runs => pure runs
  | none => io "No such file or directory"

def createDirectory : SortM τ Unit := do
  let w ← read
  if w.runs.isSome then io "File exists"
  else update (fun w => { w with runs := some .empty })

def removeDirectory : SortM τ Unit := do
  let runs ← directory
  if runs.size = 0 then update (fun w => { w with runs := none })
  else io "Directory not empty"

def openRun (k : ℕ ×ₗ ℕ) : SortM τ (List U8) := do
  let runs ← directory
  match runs.get? k with
  | some b => pure b
  | none => io "No such file or directory"

def createRun (k : ℕ ×ₗ ℕ) : SortM τ Unit := do
  let runs ← directory
  if (runs.get? k).isSome then io "File exists"
  else update (fun w => { w with runs := some (runs.insert k []) })

/-- `remove_owned` on a run. -/
def removeRun (k : ℕ ×ₗ ℕ) : SortM τ Unit := do
  let runs ← directory
  let b ← openRun k
  update (fun w => { w with runs := some (runs.erase k) })
  ofQuota (DiskBudget.release b.length)

def openPlacements : SortM τ (List U8) := do
  let w ← read
  match w.placements with
  | some b => pure b
  | none => io "No such file or directory"

/-- `remove_owned` on the placements. -/
def removePlacements : SortM τ Unit := do
  let b ← openPlacements
  update (fun w => { w with placements := none })
  ofQuota (DiskBudget.release b.length)

/-- An empty index. -/
def createRanges : SortM τ Unit := do
  let w ← read
  if w.ranges.isSome then io "File exists"
  else update (fun w => { w with ranges := some [] })

def renameRun (k : ℕ ×ₗ ℕ) : SortM τ Unit := do
  let runs ← directory
  let b ← openRun k
  update (fun w => { w with
    runs := some (runs.erase k)
    ranges := some b })

def writeRow (k : ℕ ×ₗ ℕ) (r : Row) : SortM τ Unit := do
  ofQuota (DiskBudget.charge Row.WIDTH)
  let e ← result r.encode
  let runs ← directory
  let b ← openRun k
  update (fun w => { w with runs := some (runs.insert k (b ++ e)) })

end SortM

def nextRow (unread : List U8) : Result (Option (Row × List U8)) := do
  let row ← readRow unread
  .ok (row.map fun r => (r, unread.drop Row.WIDTH))

namespace RangeSort

open SortM

variable {τ : Type} (check : Method τ Error Unit) (fuel entries fanIn : ℕ)

/-- At most `entries` rows. -/
def readChunk : List U8 → SortM τ (List Row × List U8) := fun unread =>
  loop none (fun (s : List Row × List U8) => do
    if s.1.length < entries then do
      checkEvery check s.1.length
      let next ← result (nextRow s.2)
      match next with
      | some (r, rest) => pure (.inl (s.1 ++ [r], rest))
      | none => pure (.inr s)
    else pure (.inr s)) fuel ([], unread)

def writeChunk (k : ℕ ×ₗ ℕ) (chunk : List Row) (total : ℕ) : SortM τ ℕ :=
  chunk.foldlM (fun total r => do
    writeRow k r
    result (okOr (Error.limit "history_index_count") (checkedAdd total 1))) total

/-- The runs of the first pass: their number and the number of rows. -/
def writeRuns (unread : List U8) : SortM τ (ℕ × ℕ) :=
  loop none (fun (s : List U8 × ℕ × ℕ) => do
    ofCheck check
    let (chunk, rest) ← readChunk check fuel entries s.1
    if chunk = [] then pure (.inr s.2)
    else do
      createRun (toLex (0, s.2.1))
      let total ← writeChunk (toLex (0, s.2.1)) (chunk.insertionSort (· ≤ ·)) s.2.2
      pure (.inl (rest, s.2.1 + 1, total))) fuel (unread, 0, 0)

/-- The open files of a merge and the heap of their fronts. -/
abbrev Fronts : Type := List (Row ×ₗ ℕ) × List (List U8)

def openFronts (pass first stop : ℕ) : SortM τ Fronts :=
  (List.range' first (stop - first)).foldlM (fun (s : Fronts) n => do
    let f ← openRun (toLex (pass, n))
    let next ← result (nextRow f)
    match next with
    | some (r, rest) => pure (s.1 ++ [toLex (r, s.2.length)], s.2 ++ [rest])
    | none => pure (s.1, s.2 ++ [f])) ([], [])

def mergeFronts (k : ℕ ×ₗ ℕ) (fronts : Fronts) : SortM τ Unit :=
  loop none (fun (s : Fronts × ℕ) => do
    match KWayMerge.pop s.1.1 with
    | none => pure (.inr ())
    | some (m, heap) => do
      checkEvery check s.2
      writeRow k (ofLex m).1
      let next ← result (nextRow (s.1.2.getD (ofLex m).2 []))
      match next with
      | some (r, rest) =>
        pure (.inl ((heap ++ [toLex (r, (ofLex m).2)], s.1.2.set (ofLex m).2 rest), s.2 + 1))
      | none => pure (.inl ((heap, s.1.2), s.2 + 1))) fuel (fronts, 0)

/-- One pass over `count` runs: the number of runs after it. -/
def mergePass (pass count : ℕ) : SortM τ ℕ :=
  loop none (fun (s : ℕ × ℕ) => do
    if s.1 < count then do
      ofCheck check
      let stop := min count (s.1 + fanIn)
      let fronts ← openFronts pass s.1 stop
      createRun (toLex (pass + 1, s.2))
      mergeFronts check fuel (toLex (pass + 1, s.2)) fronts
      (List.range' s.1 (stop - s.1)).foldlM (fun _ n => removeRun (toLex (pass, n))) ()
      pure (.inl (stop, s.2 + 1))
    else pure (.inr s.2)) fuel (0, 0)

/-- Passes until one run is left: the number of the last pass. -/
def mergeRuns (count : ℕ) : SortM τ ℕ :=
  loop none (fun (s : ℕ × ℕ) => do
    if 1 < s.2 then do
      let next ← mergePass check fuel fanIn s.1 s.2
      pure (.inl (s.1 + 1, next))
    else pure (.inr s.1)) fuel (0, count)

/-- `sort_checked`: the placements become the sorted index. -/
def sortChecked : SortM τ ℕ := do
  if ¬ (2 ≤ entries ∧ entries ≤ 1000000) ∨ ¬ (2 ≤ fanIn ∧ fanIn ≤ 64) then
    fail (some (bad "history_sort" "invalid sort budgets"))
  else do
    let source ← openPlacements
    createDirectory
    let (count, total) ← writeRuns check fuel entries source
    removePlacements
    if count = 0 then do
      createRanges
      removeDirectory
      pure 0
    else do
      let pass ← mergeRuns check fuel fanIn count
      renameRun (toLex (pass, 0))
      removeDirectory
      pure total

end RangeSort

end PcapEvidence.History
