import Mathlib.Logic.Function.Basic

/-!
# A map in memory over a map on disk

Records are read from memory before the disk.  A transaction in memory keeps
what it has written and what it has erased apart until it is committed, where
all the writes are applied and then all the erases.  A transaction on disk
reads back its own records, and is dropped as a whole.

The rules say what each operation does to one key: to what is committed, and to
what would be committed next.
-/

namespace Nexus.Lib.Overlay

universe u v

variable {κ : Type u} {ν : Type v} [DecidableEq κ]

/-- What a transaction in memory has written and erased. -/
structure Pending (κ : Type u) (ν : Type v) where
  writes : κ → Option ν := fun _ => none
  erased : κ → Bool := fun _ => false

structure Layers (κ : Type u) (ν : Type v) where
  disk : κ → Option ν := fun _ => none
  /-- The disk before the transaction on disk that is open. -/
  saved : Option (κ → Option ν) := none
  commit : κ → Option ν := fun _ => none
  pending : Option (Pending κ ν) := none

namespace Layers

/-- Write a record in memory. -/
def write (layers : Layers κ ν) (key : κ) (value : ν) : Layers κ ν :=
  match layers.pending with
  | some p =>
      { layers with
        pending := some
          { writes := Function.update p.writes key (some value)
            erased := Function.update p.erased key false } }
  | none => { layers with commit := Function.update layers.commit key (some value) }

/-- Erase a record in memory. -/
def erase (layers : Layers κ ν) (key : κ) : Layers κ ν :=
  match layers.pending with
  | some p =>
      { layers with
        pending := some
          { writes := Function.update p.writes key none
            erased := Function.update p.erased key true } }
  | none => { layers with commit := Function.update layers.commit key none }

/-- Erase a committed record, whether or not a transaction is open. -/
def drop (layers : Layers κ ν) (key : κ) : Layers κ ν :=
  { layers with commit := Function.update layers.commit key none }

/-- Write or erase a record on disk. -/
def put (layers : Layers κ ν) (key : κ) (value : Option ν) : Layers κ ν :=
  { layers with disk := Function.update layers.disk key value }

/-- Read a record, from memory first. -/
def read (layers : Layers κ ν) (key : κ) : Option ν :=
  (layers.pending.bind fun p => p.writes key) <|> layers.commit key <|> layers.disk key

/-! ## Transactions -/

def memoryBegin (layers : Layers κ ν) : Layers κ ν := { layers with pending := some {} }

def memoryRelease (layers : Layers κ ν) : Layers κ ν := { layers with pending := none }

/-- The committed records after all writes and then all erases of a transaction. -/
def Pending.over (p : Pending κ ν) (commit : κ → Option ν) (key : κ) : Option ν :=
  if p.erased key then none else p.writes key <|> commit key

def memoryCommit (layers : Layers κ ν) : Layers κ ν :=
  match layers.pending with
  | some p => { layers with commit := Pending.over p layers.commit, pending := none }
  | none => layers

def diskBegin (layers : Layers κ ν) : Layers κ ν :=
  let disk := layers.saved.getD layers.disk
  { layers with disk, saved := some disk }

def diskRelease (layers : Layers κ ν) : Layers κ ν :=
  { layers with disk := layers.saved.getD layers.disk, saved := none }

def diskCommit (layers : Layers κ ν) : Layers κ ν := { layers with saved := none }

end Layers

/-! ## Edits in memory -/

/-- A write of a record, or its erase. -/
abbrev Edit (κ : Type u) (ν : Type v) := κ × Option ν

/-- What the last edit of a key in a list makes of it, if there is one. -/
def last : List (Edit κ ν) → κ → Option (Option ν)
  | [], _ => none
  | e :: es, key => last es key <|> if e.1 = key then some e.2 else none

theorem last_append (es fs : List (Edit κ ν)) (key : κ) :
    last (es ++ fs) key = (last fs key <|> last es key) := by
  induction es with
  | nil => simp [last]
  | cons e es ih =>
      rw [List.cons_append, last, ih, last]
      cases last fs key <;> rfl

/-- The last edit of a key is the last of the edits of that key. -/
theorem last_eq_getLast? (es : List (Edit κ ν)) (key : κ) :
    last es key = (es.filterMap fun e => if e.1 = key then some e.2 else none).getLast? := by
  induction es with
  | nil => rfl
  | cons e es ih =>
      rw [last, ih]
      by_cases hKey : e.1 = key
      · simp only [hKey, if_true, List.filterMap_cons, List.getLast?_cons]
        cases (List.filterMap (fun e : Edit κ ν => if e.1 = key then some e.2 else none)
          es).getLast? <;> rfl
      · simp [hKey]

namespace Layers

variable (layers : Layers κ ν)

def edit (e : Edit κ ν) : Layers κ ν :=
  match e.2 with
  | some value => layers.write e.1 value
  | none => layers.erase e.1

theorem edit_none (h : layers.pending = none) (e : Edit κ ν) :
    layers.edit e = { layers with commit := Function.update layers.commit e.1 e.2 } := by
  obtain ⟨key, _ | value⟩ := e <;> simp only [edit, write, erase, h]

theorem edit_some {p : Pending κ ν} (h : layers.pending = some p) (e : Edit κ ν) :
    layers.edit e =
      { layers with
        pending := some
          { writes := Function.update p.writes e.1 e.2
            erased := Function.update p.erased e.1 e.2.isNone } } := by
  obtain ⟨key, _ | value⟩ := e <;> simp only [edit, write, erase, h] <;> rfl

/-- Edits with no transaction open go to the committed records. -/
theorem edits_none (es : List (Edit κ ν)) (h : layers.pending = none) :
    es.foldl edit layers =
      { layers with commit := fun key => (last es key).getD (layers.commit key) } := by
  induction es generalizing layers with
  | nil => rfl
  | cons e es ih =>
      rw [List.foldl_cons, edit_none layers h,
        ih { layers with commit := Function.update layers.commit e.1 e.2 } h]
      simp only [last, Layers.mk.injEq, true_and, and_true]
      funext key
      by_cases hKey : e.1 = key
      · cases last es key <;> simp [hKey]
      · cases last es key <;> simp [hKey, Ne.symm hKey]

/-- Edits in a transaction leave the committed records alone, and the last one of a key
decides whether the key is pending or erased. -/
theorem edits_some (es : List (Edit κ ν)) {p : Pending κ ν} (h : layers.pending = some p) :
    es.foldl edit layers =
      { layers with
        pending := some
          { writes := fun key => (last es key).getD (p.writes key)
            erased := fun key => ((last es key).map Option.isNone).getD (p.erased key) } } := by
  induction es generalizing layers p with
  | nil =>
      obtain ⟨disk, saved, commit, pending⟩ := layers
      simp only at h
      simp [last, h]
  | cons e es ih =>
      rw [List.foldl_cons, edit_some layers h, ih _ rfl]
      simp only [last, Layers.mk.injEq, true_and, Option.some.injEq, Pending.mk.injEq]
      constructor
      · funext key
        by_cases hKey : e.1 = key
        · cases last es key <;> simp [hKey]
        · cases last es key <;> simp [hKey, Ne.symm hKey]
      · funext key
        by_cases hKey : e.1 = key
        · cases last es key <;> simp [hKey]
        · cases last es key <;> simp [hKey, Ne.symm hKey]

/-! ## A transaction of edits -/

/-- A committed transaction is its edits, applied directly. -/
theorem memoryCommit_edits (es : List (Edit κ ν)) :
    (es.foldl edit layers.memoryBegin).memoryCommit = es.foldl edit layers.memoryRelease := by
  rw [edits_some _ es (p := {}) rfl, edits_none _ es rfl]
  simp only [memoryCommit, memoryBegin, memoryRelease, Layers.mk.injEq, true_and, and_true]
  funext key
  rcases hLast : last es key with _ | _ | value <;> simp [Pending.over, hLast]

/-- Inside a transaction a read sees the committed record behind an erase. -/
theorem read_edits (es : List (Edit κ ν)) (key : κ) :
    (es.foldl edit layers.memoryBegin).read key =
      ((last es key).join <|> layers.commit key <|> layers.disk key) := by
  rw [edits_some _ es (p := {}) rfl]
  rcases hLast : last es key with _ | _ | value <;> simp [read, memoryBegin, hLast]

theorem read_edits_release (es : List (Edit κ ν)) (key : κ) :
    (es.foldl edit layers.memoryRelease).read key =
      ((last es key).getD (layers.commit key) <|> layers.disk key) := by
  rw [edits_none _ es rfl]
  rfl

/-- The committed record of a key shows through an erase of the transaction. -/
def Shows (es : List (Edit κ ν)) (key : κ) : Prop :=
  last es key = some none ∧ layers.commit key ≠ none

theorem read_edits_eq_iff (es : List (Edit κ ν)) (key : κ) :
    (es.foldl edit layers.memoryBegin).read key = (es.foldl edit layers.memoryRelease).read key ↔
      (layers.Shows es key → layers.disk key = layers.commit key) := by
  rw [read_edits, read_edits_release, Shows]
  rcases hLast : last es key with _ | _ | value
  · simp
  · cases hCommit : layers.commit key with
    | none => simp
    | some value => simpa using eq_comm
  · simp

theorem isSome_read_edits_eq_iff (es : List (Edit κ ν)) (key : κ) :
    ((es.foldl edit layers.memoryBegin).read key).isSome =
        ((es.foldl edit layers.memoryRelease).read key).isSome ↔
      (layers.Shows es key → (layers.disk key).isSome) := by
  rw [read_edits, read_edits_release, Shows]
  rcases hLast : last es key with _ | _ | value
  · simp
  · cases hCommit : layers.commit key with
    | none => simp
    | some value => simpa using eq_comm
  · simp

end Layers

/-! ## Writes to disk -/

/-- A write or an erase of the disk.  It hides the record in memory if `hide` holds of the
committed one, after it has dropped it. -/
structure Put (κ : Type u) (ν : Type v) where
  key : κ
  value : Option ν
  hide : Option ν → Bool
  dropped : Bool := false

namespace Put

def edit (p : Put κ ν) : Edit κ ν := (p.key, p.value)

/-- One of the writes drops the committed record of the key. -/
def drops (ps : List (Put κ ν)) (key : κ) : Bool :=
  ps.any fun p => p.dropped && p.key = key

/-- One of the writes hides a record of the key. -/
def hides (ps : List (Put κ ν)) (key : κ) (value : ν) : Bool :=
  ps.any fun p => p.key = key && p.hide (some value)

end Put

namespace Layers

variable (layers : Layers κ ν)

def block (p : Put κ ν) : Layers κ ν :=
  let layers := if p.dropped then layers.drop p.key else layers
  let layers := if p.hide (layers.commit p.key) then layers.erase p.key else layers
  layers.put p.key p.value

@[simp] theorem erase_disk (key : κ) : (layers.erase key).disk = layers.disk := by
  unfold erase
  cases layers.pending <;> rfl

@[simp] theorem erase_saved (key : κ) : (layers.erase key).saved = layers.saved := by
  unfold erase
  cases layers.pending <;> rfl

theorem erase_of_pending {q : Pending κ ν} (h : layers.pending = some q) (key : κ) :
    layers.erase key =
      { layers with
        pending := some
          { writes := Function.update q.writes key none
            erased := Function.update q.erased key true } } := by
  unfold erase
  rw [h]

theorem block_disk (p : Put κ ν) :
    (layers.block p).disk = Function.update layers.disk p.key p.value := by
  simp only [block, put]
  split <;> split <;> simp [drop]

theorem block_saved (p : Put κ ν) : (layers.block p).saved = layers.saved := by
  simp only [block, put]
  split <;> split <;> simp [drop]

theorem blocks_disk (ps : List (Put κ ν)) (key : κ) :
    (ps.foldl block layers).disk key = (last (ps.map Put.edit) key).getD (layers.disk key) := by
  induction ps generalizing layers with
  | nil => rfl
  | cons p ps ih =>
      rw [List.foldl_cons, ih, block_disk, List.map_cons, last]
      by_cases hKey : p.key = key
      · cases last (ps.map Put.edit) key <;> simp [Put.edit, hKey]
      · cases last (ps.map Put.edit) key <;> simp [Put.edit, hKey, Ne.symm hKey]

theorem blocks_saved (ps : List (Put κ ν)) : (ps.foldl block layers).saved = layers.saved := by
  induction ps generalizing layers with
  | nil => rfl
  | cons p ps ih => rw [List.foldl_cons, ih, block_saved]

/-- In a transaction a write drops the committed record of its key or leaves it, and hides it
by a pending erase. -/
theorem block_of_pending {q : Pending κ ν} (h : layers.pending = some q) (p : Put κ ν) :
    layers.block p =
      { layers with
        disk := Function.update layers.disk p.key p.value
        commit := if p.dropped then Function.update layers.commit p.key none else layers.commit
        pending := some (if p.hide (if p.dropped then none else layers.commit p.key) then
            { writes := Function.update q.writes p.key none
              erased := Function.update q.erased p.key true }
          else q) } := by
  obtain ⟨disk, saved, commit, pending⟩ := layers
  simp only at h
  subst h
  cases hDropped : p.dropped with
  | true =>
      simp only [block, hDropped, drop, put, if_true, Function.update_self]
      cases p.hide none <;> rfl
  | false =>
      simp only [block, hDropped, put, Bool.false_eq_true, if_false]
      cases p.hide (commit p.key) <;> rfl

theorem block_commit {q : Pending κ ν} (h : layers.pending = some q) (p : Put κ ν) (key : κ) :
    (layers.block p).commit key =
      if p.dropped && p.key = key then none else layers.commit key := by
  rw [block_of_pending layers h]
  by_cases hKey : key = p.key
  · cases p.dropped <;> simp [hKey]
  · cases p.dropped <;> simp [hKey, Ne.symm hKey]

theorem block_pending {q : Pending κ ν} (h : layers.pending = some q) (p : Put κ ν) :
    (layers.block p).pending =
      some (if p.hide (if p.dropped then none else layers.commit p.key) then
          { writes := Function.update q.writes p.key none
            erased := Function.update q.erased p.key true }
        else q) := by
  rw [block_of_pending layers h]

theorem blocks_commit {q : Pending κ ν} (h : layers.pending = some q) (ps : List (Put κ ν))
    (key : κ) :
    (ps.foldl block layers).commit key =
      if Put.drops ps key then none else layers.commit key := by
  induction ps generalizing layers q with
  | nil => rfl
  | cons p ps ih =>
      rw [List.foldl_cons, ih _ (block_pending layers h p), block_commit layers h, Put.drops,
        Put.drops, List.any_cons]
      cases p.dropped && decide (p.key = key) <;> simp

/-- What a transaction of writes to disk leaves pending: nothing written, and what it hides
erased. -/
theorem blocks_pending {q : Pending κ ν} (h : layers.pending = some q) (ps : List (Put κ ν)) :
    ∃ r, (ps.foldl block layers).pending = some r ∧
      (∀ key, q.writes key = none → r.writes key = none) ∧
      ∀ key value, layers.commit key = some value → Put.drops ps key = false →
        r.erased key = (q.erased key || Put.hides ps key value) := by
  induction ps generalizing layers q with
  | nil => exact ⟨q, h, fun key hKey => hKey, fun key value _ _ => by simp [Put.hides]⟩
  | cons p ps ih =>
      have hBlock := block_pending layers h p
      by_cases hHide : p.hide (if p.dropped then none else layers.commit p.key)
      · rw [if_pos hHide] at hBlock
        obtain ⟨r, hPending, hWrites, hErased⟩ := ih _ hBlock
        refine ⟨r, hPending, ?_, ?_⟩
        · intro key hKey
          refine hWrites key ?_
          by_cases hEq : key = p.key
          · simp [hEq]
          · simpa [hEq] using hKey
        · intro key value hCommit hDrops
          rw [Put.drops, List.any_cons, Bool.or_eq_false_iff] at hDrops
          have hStay : (layers.block p).commit key = some value := by
            rw [block_commit layers h, hDrops.1]
            exact hCommit
          rw [hErased key value hStay hDrops.2, Put.hides, Put.hides, List.any_cons]
          by_cases hEq : key = p.key
          · subst hEq
            have hKept : p.dropped = false := by simpa using hDrops.1
            rw [hKept] at hHide
            simp only [Bool.false_eq_true, if_false, hCommit] at hHide
            simp [hHide]
          · simp [hEq, Ne.symm hEq]
      · rw [if_neg hHide] at hBlock
        obtain ⟨r, hPending, hWrites, hErased⟩ := ih _ hBlock
        refine ⟨r, hPending, hWrites, ?_⟩
        intro key value hCommit hDrops
        rw [Put.drops, List.any_cons, Bool.or_eq_false_iff] at hDrops
        have hStay : (layers.block p).commit key = some value := by
          rw [block_commit layers h, hDrops.1]
          exact hCommit
        rw [hErased key value hStay hDrops.2, Put.hides, Put.hides, List.any_cons]
        by_cases hEq : p.key = key
        · subst hEq
          have hKept : p.dropped = false := by simpa using hDrops.1
          rw [hKept] at hHide
          simp only [Bool.false_eq_true, if_false, hCommit, Bool.not_eq_true] at hHide
          simp [hHide]
        · simp [hEq]

/-! ## A transaction of writes to disk -/

theorem memoryRelease_blocks_commit (ps : List (Put κ ν)) (key : κ) :
    ((ps.foldl block layers.memoryBegin).memoryRelease).commit key =
      if Put.drops ps key then none else layers.commit key :=
  blocks_commit _ (q := {}) rfl ps key

/-- A committed transaction erases what its writes drop and what they hide. -/
theorem memoryCommit_blocks_commit (ps : List (Put κ ν)) {key : κ} {value : ν}
    (h : layers.commit key = some value) :
    ((ps.foldl block layers.memoryBegin).memoryCommit).commit key =
      if Put.drops ps key || Put.hides ps key value then none else some value := by
  obtain ⟨r, hPending, hWrites, hErased⟩ := blocks_pending layers.memoryBegin (q := {}) rfl ps
  have hCommit := blocks_commit layers.memoryBegin (q := {}) rfl ps key
  have hNothing := hWrites key rfl
  simp only [memoryCommit, hPending, Pending.over, hNothing, hCommit]
  cases hDrops : Put.drops ps key with
  | true => simp
  | false => simp [hErased key value h hDrops, memoryBegin, h]

theorem memoryCommit_blocks_none (ps : List (Put κ ν)) {key : κ} (h : layers.commit key = none) :
    ((ps.foldl block layers.memoryBegin).memoryCommit).commit key = none := by
  obtain ⟨r, hPending, hWrites, -⟩ := blocks_pending layers.memoryBegin (q := {}) rfl ps
  have hCommit := blocks_commit layers.memoryBegin (q := {}) rfl ps key
  have hNothing := hWrites key rfl
  simp only [memoryCommit, hPending, Pending.over, hNothing, hCommit]
  simp [memoryBegin, h]

/-- In a committed transaction on disk and in memory, a key holds what was written last. -/
def commitBlock (ps : List (Put κ ν)) : Layers κ ν :=
  (ps.foldl block layers.memoryBegin.diskBegin).memoryCommit.diskCommit

theorem memoryCommit_pending : layers.memoryCommit.pending = none := by
  unfold memoryCommit
  split
  · rfl
  · assumption

theorem memoryCommit_disk : layers.memoryCommit.disk = layers.disk := by
  unfold memoryCommit
  split <;> rfl

theorem commitBlock_disk (ps : List (Put κ ν)) (key : κ) :
    (layers.commitBlock ps).disk key =
      (last (ps.map Put.edit) key).getD ((layers.saved.getD layers.disk) key) := by
  rw [commitBlock, diskCommit, memoryCommit_disk, blocks_disk]
  rfl

theorem commitBlock_commit (ps : List (Put κ ν)) {key : κ} {value : ν}
    (h : layers.commit key = some value) :
    (layers.commitBlock ps).commit key =
      if Put.drops ps key || Put.hides ps key value then none else some value :=
  memoryCommit_blocks_commit layers.diskBegin ps h

theorem commitBlock_none (ps : List (Put κ ν)) {key : κ} (h : layers.commit key = none) :
    (layers.commitBlock ps).commit key = none :=
  memoryCommit_blocks_none layers.diskBegin ps h

/-- Committed blocks one after another. -/
def commitBlocks (pss : List (List (Put κ ν))) : Layers κ ν := pss.foldl commitBlock layers

theorem commitBlocks_pending (pss : List (List (Put κ ν))) (h : layers.pending = none) :
    (layers.commitBlocks pss).pending = none := by
  induction pss generalizing layers with
  | nil => exact h
  | cons ps pss ih => exact ih _ (memoryCommit_pending _)

theorem commitBlocks_none (pss : List (List (Put κ ν))) {key : κ} (h : layers.commit key = none) :
    (layers.commitBlocks pss).commit key = none := by
  induction pss generalizing layers with
  | nil => exact h
  | cons ps pss ih => exact ih _ (commitBlock_none layers ps h)

theorem commitBlocks_commit (pss : List (List (Put κ ν))) {key : κ} {value : ν}
    (h : layers.commit key = some value) :
    (layers.commitBlocks pss).commit key =
      if Put.drops pss.flatten key || Put.hides pss.flatten key value then none
      else some value := by
  induction pss generalizing layers with
  | nil => exact h
  | cons ps pss ih =>
      have hFlat : (Put.drops (ps :: pss).flatten key || Put.hides (ps :: pss).flatten key value) =
          ((Put.drops ps key || Put.hides ps key value) ||
            (Put.drops pss.flatten key || Put.hides pss.flatten key value)) := by
        simp only [Put.drops, Put.hides, List.flatten_cons, List.any_append]
        ac_rfl
      have hHead := commitBlock_commit layers ps h
      rw [hFlat]
      cases hGone : Put.drops ps key || Put.hides ps key value with
      | true =>
          rw [hGone] at hHead
          exact commitBlocks_none _ pss hHead
      | false =>
          rw [hGone] at hHead
          rw [Bool.false_or]
          exact ih _ hHead

theorem commitBlock_saved (ps : List (Put κ ν)) : (layers.commitBlock ps).saved = none := rfl

/-- Blocks that write nothing to a key leave it on disk as it was. -/
theorem commitBlocks_disk_of_none (pss : List (List (Put κ ν))) {key : κ}
    (h : last (pss.flatten.map Put.edit) key = none) (hSaved : layers.saved = none) :
    (layers.commitBlocks pss).disk key = layers.disk key := by
  induction pss generalizing layers with
  | nil => rfl
  | cons ps pss ih =>
      rw [List.flatten_cons, List.map_append, last_append] at h
      cases hLast : last (pss.flatten.map Put.edit) key with
      | some value =>
          rw [hLast] at h
          cases h
      | none =>
          rw [hLast] at h
          have hNext := ih (layers.commitBlock ps) hLast (commitBlock_saved layers ps)
          refine hNext.trans ?_
          rw [commitBlock_disk, show last (ps.map Put.edit) key = none from h, hSaved]
          rfl

theorem commitBlocks_disk (pss : List (List (Put κ ν))) {key : κ} {value : Option ν}
    (h : last (pss.flatten.map Put.edit) key = some value) :
    (layers.commitBlocks pss).disk key = value := by
  induction pss generalizing layers with
  | nil => cases h
  | cons ps pss ih =>
      rw [List.flatten_cons, List.map_append, last_append] at h
      cases hTail : last (pss.flatten.map Put.edit) key with
      | some value' =>
          rw [hTail] at h
          cases h
          exact ih _ hTail
      | none =>
          rw [hTail] at h
          have hHead := commitBlock_disk layers ps key
          rw [show last (ps.map Put.edit) key = some value from h] at hHead
          have hKeep := commitBlocks_disk_of_none _ pss hTail (commitBlock_saved layers ps)
          exact hKeep.trans hHead

/-- A committed record is read until a block hides it, and then the record on disk. -/
theorem commitBlocks_read (pss : List (List (Put κ ν))) {key : κ} {value : ν}
    (hPending : layers.pending = none) (h : layers.commit key = some value)
    (hDrops : Put.drops pss.flatten key = false) :
    (layers.commitBlocks pss).read key =
      if Put.hides pss.flatten key value then (layers.commitBlocks pss).disk key
      else some value := by
  rw [read, commitBlocks_pending layers pss hPending, commitBlocks_commit layers pss h, hDrops,
    Bool.false_or]
  cases Put.hides pss.flatten key value <;> rfl

/-! ## Transactions of the pool in a transaction on disk -/

/-- A transaction of edits that is committed or aborted. -/
def nested (t : List (Edit κ ν) × Bool) : Layers κ ν :=
  let layers := t.1.foldl edit layers.memoryBegin
  if t.2 then layers.memoryCommit else layers.memoryRelease

/-- The edits of the transactions that are committed. -/
def kept (ts : List (List (Edit κ ν) × Bool)) : List (Edit κ ν) :=
  ts.flatMap fun t => if t.2 then t.1 else []

theorem nested_eq (t : List (Edit κ ν) × Bool) :
    layers.nested t = (if t.2 then t.1 else []).foldl edit layers.memoryRelease := by
  cases hCommit : t.2 with
  | true =>
      simp only [nested, hCommit, if_true]
      exact memoryCommit_edits layers t.1
  | false =>
      simp only [nested, hCommit, Bool.false_eq_true, if_false, List.foldl_nil]
      rw [edits_some _ t.1 (p := {}) rfl]
      rfl

theorem nesteds_of_none (ts : List (List (Edit κ ν) × Bool)) (h : layers.pending = none) :
    ts.foldl nested layers = (kept ts).foldl edit layers := by
  induction ts generalizing layers with
  | nil => rfl
  | cons t ts ih =>
      have hRelease : layers.memoryRelease = layers := by
        rw [memoryRelease, ← h]
      rw [List.foldl_cons, nested_eq, hRelease, kept, List.flatMap_cons, List.foldl_append]
      refine ih _ ?_
      rw [edits_none layers _ h]
      exact h

/-- The first transaction of the pool drops what the block had pending. -/
theorem nesteds_of_ne_nil {ts : List (List (Edit κ ν) × Bool)} (h : ts ≠ []) :
    ts.foldl nested layers = (kept ts).foldl edit layers.memoryRelease := by
  obtain _ | ⟨t, ts⟩ := ts
  · exact absurd rfl h
  · rw [List.foldl_cons, nested_eq, kept, List.flatMap_cons, List.foldl_append]
    refine nesteds_of_none _ ts ?_
    rw [edits_none layers.memoryRelease _ rfl]
    rfl

/-- A block, with transactions of the pool before it is committed. -/
def commitNested (ps : List (Put κ ν)) (ts : List (List (Edit κ ν) × Bool)) : Layers κ ν :=
  (ts.foldl nested (ps.foldl block layers.memoryBegin.diskBegin)).memoryCommit.diskCommit

/-- A committed record of before is not committed any more. -/
def Retired (after : Layers κ ν) (key : κ) (value : ν) : Prop :=
  layers.commit key = some value ∧ after.commit key ≠ some value

/-- The block retires a record, and the transactions of the pool leave it as it was. -/
def Lost (ps : List (Put κ ν)) (ts : List (List (Edit κ ν) × Bool)) (key : κ) (value : ν) : Prop :=
  layers.commit key = some value ∧
    (if Put.drops ps key then last (kept ts) key = some (some value)
      else Put.hides ps key value ∧
        (last (kept ts) key = none ∨ last (kept ts) key = some (some value)))

theorem commitNested_commit (ps : List (Put κ ν)) {ts : List (List (Edit κ ν) × Bool)}
    (h : ts ≠ []) (key : κ) :
    (layers.commitNested ps ts).commit key =
      (last (kept ts) key).getD (if Put.drops ps key then none else layers.commit key) := by
  have hBlock := memoryRelease_blocks_commit layers.diskBegin ps key
  rw [commitNested, nesteds_of_ne_nil _ h, edits_none _ _ rfl]
  change (last (kept ts) key).getD _ = _
  exact congrArg _ hBlock

/-- Everything that the block alone retires is retired, unless a transaction of the pool ran and
left a record behind. -/
theorem retired_iff (ps : List (Put κ ν)) (ts : List (List (Edit κ ν) × Bool)) :
    (∀ key value, layers.Retired (layers.commitNested ps []) key value →
        layers.Retired (layers.commitNested ps ts) key value) ↔
      ts = [] ∨ ∀ key value, ¬ layers.Lost ps ts key value := by
  by_cases hNil : ts = []
  · simp [hNil]
  · have hAlone : ∀ key value, layers.commit key = some value →
        ((layers.commitNested ps []).commit key ≠ some value ↔
          Put.drops ps key || Put.hides ps key value) := by
      intro key value hCommit
      have hBlock := commitBlock_commit layers ps hCommit
      rw [show layers.commitNested ps [] = layers.commitBlock ps from rfl, hBlock]
      cases Put.drops ps key || Put.hides ps key value <;> simp
    simp only [hNil, false_or]
    refine forall_congr' fun key => forall_congr' fun value => ?_
    by_cases hCommit : layers.commit key = some value
    · simp only [Retired, Lost, hCommit, true_and, hAlone key value hCommit,
        commitNested_commit layers ps hNil key]
      cases Put.drops ps key with
      | true => cases last (kept ts) key <;> simp
      | false => cases last (kept ts) key <;> simp
    · simp [Retired, Lost, hCommit]

end Layers

/-! ## The edits and the writes of one key -/

theorem last_filter (es : List (Edit κ ν)) (key : κ) :
    last (es.filter fun e => e.1 = key) key = last es key := by
  induction es with
  | nil => rfl
  | cons e es ih =>
      by_cases hKey : e.1 = key
      · rw [List.filter_cons_of_pos (by simpa using hKey), last, last, ih]
      · rw [List.filter_cons_of_neg (by simpa using hKey), last, ih, if_neg hKey]
        cases last es key <;> rfl

theorem Put.drops_filter (ps : List (Put κ ν)) (key : κ) :
    Put.drops (ps.filter fun p => p.key = key) key = Put.drops ps key := by
  rw [Put.drops, Put.drops, List.any_filter]
  congr 1
  funext p
  by_cases hKey : p.key = key <;> simp [hKey]

theorem Put.hides_filter (ps : List (Put κ ν)) (key : κ) (value : ν) :
    Put.hides (ps.filter fun p => p.key = key) key value = Put.hides ps key value := by
  rw [Put.hides, Put.hides, List.any_filter]
  congr 1
  funext p
  by_cases hKey : p.key = key <;> simp [hKey]

/-! ## Components -/

/-- A component of a state on which every step acts by what it makes of the label. -/
theorem component_foldl {σ τ α β : Type*} (component : σ → τ) (step : σ → α → σ) (f : α → Option β)
    (g : τ → β → τ)
    (hStep : ∀ s a, component (step s a) = ((f a).map (g (component s))).getD (component s))
    (as : List α) (s : σ) :
    component (as.foldl step s) = (as.filterMap f).foldl g (component s) := by
  induction as generalizing s with
  | nil => rfl
  | cons a as ih =>
      rw [List.foldl_cons, ih, hStep, List.filterMap_cons]
      cases f a <;> rfl

theorem filter_filterMap {α β : Type*} (f : α → Option β) (q : β → Bool) (as : List α) :
    (as.filterMap f).filter q = (as.filter fun a => (f a).any q).filterMap f := by
  induction as with
  | nil => rfl
  | cons a as ih =>
      cases hValue : f a with
      | none => simp [hValue, ih]
      | some b => cases hQ : q b <;> simp [hValue, hQ, ih]

end Nexus.Lib.Overlay
