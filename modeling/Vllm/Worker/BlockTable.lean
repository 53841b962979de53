import Vllm.Lib.Column

/-! The block tables of a batch (`worker/block_table.py`): the block ids of each row, for each KV cache
group. -/
namespace Vllm.Worker
open Column List Option Slice

/-- `BlockTable`; an allocated block is `blocksPerKvBlock` blocks of the kernel. -/
structure BlockTable where
  blocksPerKvBlock : Nat
  blockTable : Column (Nat → Nat) := fun _ _ => 0
  numBlocksPerRow : Column Nat := fun _ => 0

namespace BlockTable

def mapToKernelBlocks (blockIds : List Nat) (blocksPerKvBlock : Nat) : List Nat :=
  if blocksPerKvBlock = 1 then blockIds
  else blockIds.flatMap fun blockId =>
    (range blocksPerKvBlock).map fun i => blockId * blocksPerKvBlock + i

def appendRow (t : BlockTable) (blockIds : List Nat) (row : Nat) : BlockTable :=
  if blockIds = [] then t
  else
    let blockIds := mapToKernelBlocks blockIds t.blocksPerKvBlock
    let start := t.numBlocksPerRow row
    { t with
      numBlocksPerRow := t.numBlocksPerRow.set row (start + blockIds.length)
      blockTable := t.blockTable.set row (write (t.blockTable row) start blockIds) }

def addRow (t : BlockTable) (blockIds : List Nat) (row : Nat) : BlockTable :=
  appendRow { t with numBlocksPerRow := t.numBlocksPerRow.set row 0 } blockIds row

def clearRow (t : BlockTable) (row : Nat) : BlockTable :=
  let numBlocks := t.numBlocksPerRow row
  { t with
    blockTable :=
      if 0 < numBlocks then t.blockTable.set row (fill (t.blockTable row) 0 numBlocks 0)
      else t.blockTable
    numBlocksPerRow := t.numBlocksPerRow.set row 0 }

def moveRow (t : BlockTable) (src tgt : Nat) : BlockTable :=
  let numBlocks := t.numBlocksPerRow src
  { t with
    blockTable :=
      t.blockTable.set tgt (copy numBlocks (t.blockTable src) (t.blockTable tgt))
    numBlocksPerRow := t.numBlocksPerRow.set tgt numBlocks }

def swapRow (t : BlockTable) (src tgt : Nat) : BlockTable :=
  { t with
    numBlocksPerRow := t.numBlocksPerRow.swap src tgt
    blockTable := t.blockTable.swap src tgt }

def row (t : BlockTable) (i : Nat) : List Nat := Slice.take (t.blockTable i) (t.numBlocksPerRow i)

variable (t : BlockTable) {blockIds : List Nat} {i j k : Nat}

theorem mapToKernelBlocks_append (ids ids' : List Nat) (n : Nat) :
    mapToKernelBlocks (ids ++ ids') n = mapToKernelBlocks ids n ++ mapToKernelBlocks ids' n := by
  unfold mapToKernelBlocks
  split
  · rfl
  · exact flatMap_append

theorem mapToKernelBlocks_nil (n : Nat) : mapToKernelBlocks [] n = [] := by
  unfold mapToKernelBlocks
  split
  · rfl
  · rfl

@[simp] theorem blocksPerKvBlock_appendRow :
    (t.appendRow blockIds i).blocksPerKvBlock = t.blocksPerKvBlock := by
  unfold appendRow
  split
  · rfl
  · rfl

@[simp] theorem blocksPerKvBlock_addRow :
    (t.addRow blockIds i).blocksPerKvBlock = t.blocksPerKvBlock :=
  blocksPerKvBlock_appendRow _

theorem row_appendRow_self :
    (t.appendRow blockIds i).row i = t.row i ++ mapToKernelBlocks blockIds t.blocksPerKvBlock := by
  unfold appendRow
  split
  · rename_i hnone
    rw [hnone, mapToKernelBlocks_nil, append_nil]
  · simp only [row, set_self, take_write]

theorem row_appendRow_of_ne (h : k ≠ i) : (t.appendRow blockIds i).row k = t.row k := by
  unfold appendRow
  split
  · rfl
  · simp only [row, set_of_ne _ _ _ h]

theorem row_addRow_self :
    (t.addRow blockIds i).row i = mapToKernelBlocks blockIds t.blocksPerKvBlock := by
  rw [addRow, row_appendRow_self]
  simp only [row, set_self]
  rfl

theorem row_addRow_of_ne (h : k ≠ i) : (t.addRow blockIds i).row k = t.row k := by
  rw [addRow, row_appendRow_of_ne _ h]
  simp only [row, set_of_ne _ _ _ h]

theorem row_clearRow_of_ne (h : k ≠ i) : (t.clearRow i).row k = t.row k := by
  simp only [clearRow, row, set_of_ne _ _ _ h]
  split
  · rw [set_of_ne _ _ _ h]
  · rfl

theorem row_moveRow_self : (t.moveRow i j).row j = t.row i := by
  simp only [moveRow, row, set_self, take_copy]

theorem row_moveRow_of_ne (h : k ≠ j) : (t.moveRow i j).row k = t.row k := by
  simp only [moveRow, row, set_of_ne _ _ _ h]

theorem row_swapRow : (t.swapRow i j).row k = t.row (Equiv.swap i j k) := by
  simp only [swapRow, row, swap_apply]

end BlockTable

abbrev MultiGroupBlockTable := List BlockTable

namespace MultiGroupBlockTable

def appendRow (ts : MultiGroupBlockTable) (blockIds : List (List Nat)) (row : Nat) :
    MultiGroupBlockTable :=
  ts.mapIdx fun g t => t.appendRow (blockIds.getD g []) row

def addRow (ts : MultiGroupBlockTable) (blockIds : List (List Nat)) (row : Nat) :
    MultiGroupBlockTable :=
  ts.mapIdx fun g t => t.addRow (blockIds.getD g []) row

def clearRow (ts : MultiGroupBlockTable) (row : Nat) : MultiGroupBlockTable :=
  ts.map (·.clearRow row)

def moveRow (ts : MultiGroupBlockTable) (src tgt : Nat) : MultiGroupBlockTable :=
  ts.map (·.moveRow src tgt)

def swapRow (ts : MultiGroupBlockTable) (src tgt : Nat) : MultiGroupBlockTable :=
  ts.map (·.swapRow src tgt)

def Holds (ts : MultiGroupBlockTable) (i : Nat) (blocks : Nat → List Nat) : Prop :=
  ∀ g t, ts[g]? = some t → t.row i = BlockTable.mapToKernelBlocks (blocks g) t.blocksPerKvBlock

variable {ts : MultiGroupBlockTable} {blockIds : List (List Nat)} {i j k : Nat}
  {blocks : Nat → List Nat}

theorem Holds.map {f : BlockTable → BlockTable} (h : ts.Holds i blocks)
    (hsame : ∀ t, (f t).blocksPerKvBlock = t.blocksPerKvBlock)
    (hrow : ∀ t, (f t).row k = t.row i) : Holds (ts.map f) k blocks := by
  intro g t' ht'
  rw [getElem?_map, map_eq_some_iff] at ht'
  obtain ⟨t, ht, rfl⟩ := ht'
  rw [hsame, hrow, h g t ht]

theorem Holds.clearRow_of_ne (h : ts.Holds k blocks) (hne : k ≠ i) : (ts.clearRow i).Holds k blocks :=
  h.map (fun _ => rfl) fun t => t.row_clearRow_of_ne hne

theorem Holds.moveRow_self (h : ts.Holds i blocks) : (ts.moveRow i j).Holds j blocks :=
  h.map (fun _ => rfl) fun t => t.row_moveRow_self

theorem Holds.moveRow_of_ne (h : ts.Holds k blocks) (hne : k ≠ j) : (ts.moveRow i j).Holds k blocks :=
  h.map (fun _ => rfl) fun t => t.row_moveRow_of_ne hne

theorem Holds.swapRow (h : ts.Holds (Equiv.swap i j k) blocks) : (ts.swapRow i j).Holds k blocks :=
  h.map (fun _ => rfl) fun t => t.row_swapRow

theorem Holds.appendRow_self (h : ts.Holds i blocks) :
    (ts.appendRow blockIds i).Holds i fun g => blocks g ++ blockIds.getD g [] := by
  intro g t' ht'
  rw [appendRow, getElem?_mapIdx, map_eq_some_iff] at ht'
  obtain ⟨t, ht, rfl⟩ := ht'
  rw [BlockTable.row_appendRow_self, BlockTable.blocksPerKvBlock_appendRow, h g t ht,
    BlockTable.mapToKernelBlocks_append]

theorem Holds.appendRow_of_ne (h : ts.Holds k blocks) (hne : k ≠ i) :
    (ts.appendRow blockIds i).Holds k blocks := by
  intro g t' ht'
  rw [appendRow, getElem?_mapIdx, map_eq_some_iff] at ht'
  obtain ⟨t, ht, rfl⟩ := ht'
  rw [BlockTable.row_appendRow_of_ne t hne, BlockTable.blocksPerKvBlock_appendRow, h g t ht]

theorem holds_addRow_self (ts : MultiGroupBlockTable) (blockIds : List (List Nat)) (i : Nat) :
    (ts.addRow blockIds i).Holds i fun g => blockIds.getD g [] := by
  intro g t' ht'
  rw [addRow, getElem?_mapIdx, map_eq_some_iff] at ht'
  obtain ⟨t, -, rfl⟩ := ht'
  rw [BlockTable.row_addRow_self, BlockTable.blocksPerKvBlock_addRow]

theorem Holds.addRow_of_ne (h : ts.Holds k blocks) (hne : k ≠ i) :
    (ts.addRow blockIds i).Holds k blocks := by
  intro g t' ht'
  rw [addRow, getElem?_mapIdx, map_eq_some_iff] at ht'
  obtain ⟨t, ht, rfl⟩ := ht'
  rw [BlockTable.row_addRow_of_ne t hne, BlockTable.blocksPerKvBlock_addRow, h g t ht]

end MultiGroupBlockTable
end Vllm.Worker
