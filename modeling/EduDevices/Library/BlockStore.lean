import EduDevices.Library.BlockDevice
import Mathlib.Data.List.GetD

namespace EduDevices

variable {Cell : Type*} {count size room : Nat}

/-- The cells replace the first ones of the page, as far as the page reaches. -/
def overlay (page : Vector Cell room) (cells : List Cell) : Vector Cell room :=
  Vector.ofFn fun index => cells.getD index.val (page.get index)

theorem getElem_overlay (page : Vector Cell room) (cells : List Cell) (index : Nat)
    (inside : index < room) : (overlay page cells)[index] = cells.getD index page[index] := by
  simp [overlay, Vector.get]

/-- The start of the page holds the cells that replaced it. -/
theorem take_overlay (page : Vector Cell room) {cells : List Cell} {length : Nat}
    (short : length ≤ cells.length) (fits : length ≤ room) :
    (overlay page cells).toList.take length = cells.take length := by
  apply List.ext_getElem
  · simp [short, fits]
  · intro index inside _
    have within : index < length := by
      rw [List.length_take] at inside
      omega
    rw [List.getElem_take, Vector.getElem_toList, getElem_overlay, List.getElem_take,
      List.getD_eq_getElem _ _ (by omega)]

namespace Disk

variable (disk : Disk Cell count size)

theorem contents_one {lba nlb : Nat} (one : nlb = 1) (fits : lba + nlb ≤ count) :
    disk.contents lba nlb fits = List.ofFn (disk ⟨lba, by omega⟩) := by
  subst one
  apply List.ext_getElem
  · simp
  · intro index inside _
    have small : index < size := by simpa using inside
    simp only [contents, List.getElem_ofFn, Fin.divNat, Fin.modNat, Nat.div_eq_of_lt small,
      Nat.mod_eq_of_lt small, Nat.add_zero]

/-- A write of one block replaces that block. -/
theorem perform_one (write : BlockWrite Cell count size) (one : write.nlb = 1)
    {block : Fin count} (start : write.lba = block.val) {cells : Fin size → Cell}
    (same : ∀ cell : Fin size, write.data[cell.val]? = some (cells cell)) :
    disk.perform (some write) = Function.update disk block cells := by
  funext other
  by_cases covered : other = block
  · subst covered
    have covers : write.Covers other := ⟨by omega, by omega⟩
    have written : disk.perform (some write) other = write.block other covers := dif_pos covers
    rw [Function.update_self, written]
    funext cell
    have position : (other.val - write.lba) * size + cell.val = cell.val := by
      rw [start, Nat.sub_self, Nat.zero_mul, Nat.zero_add]
    have found := same cell
    rw [← position] at found
    exact (List.getElem?_eq_some_iff.mp found).2
  · rw [Function.update_of_ne covered]
    apply perform_uncovered
    rintro known ⟨⟩ covers
    have low := covers.1
    have high := covers.2
    exact covered (Fin.ext (by omega))

end Disk

/-- A block store moves single blocks between a disk and the start of a page. -/
structure BlockStore (Cell : Type*) (count size room : Nat) where
  disk : Disk Cell count size
  page : Vector Cell room
  fits : size ≤ room

namespace BlockStore

variable (store : BlockStore Cell count size room)

def fill (cells : List Cell) : BlockStore Cell count size room :=
  { store with page := overlay store.page cells }

/-- The block that starts the page. -/
def staged : Fin size → Cell := fun cell =>
  store.page.get ⟨cell, cell.isLt.trans_le store.fits⟩

def save (block : Fin count) : BlockStore Cell count size room :=
  { store with disk := Function.update store.disk block store.staged }

def load (block : Fin count) : BlockStore Cell count size room :=
  store.fill (List.ofFn (store.disk block))

@[simp] theorem fill_disk (cells : List Cell) : (store.fill cells).disk = store.disk := rfl

@[simp] theorem fill_page (cells : List Cell) :
    (store.fill cells).page = overlay store.page cells := rfl

@[simp] theorem load_page (block : Fin count) :
    (store.load block).page = overlay store.page (List.ofFn (store.disk block)) := rfl

@[simp] theorem load_disk (block : Fin count) : (store.load block).disk = store.disk := rfl

@[simp] theorem save_page (block : Fin count) : (store.save block).page = store.page := rfl

@[simp] theorem save_disk (block : Fin count) : (store.save block).disk block = store.staged :=
  Function.update_self ..

theorem save_disk_of_ne {block other : Fin count} (different : other ≠ block) :
    (store.save block).disk other = store.disk other :=
  Function.update_of_ne different ..

/-- What fills the start of the page is staged. -/
theorem staged_fill (cells : List Cell) (cell : Fin size) (inside : cell.val < cells.length) :
    (store.fill cells).staged cell = cells.get ⟨cell, inside⟩ := by
  rw [staged, fill]
  exact (getElem_overlay store.page cells cell _).trans (List.getD_eq_getElem _ _ inside)

/-- A page that a block was loaded to starts with the cells of the block. -/
theorem take_load (block : Fin count) {length : Nat} (short : length ≤ size) :
    (store.load block).page.toList.take length = (List.ofFn (store.disk block)).take length :=
  take_overlay store.page (by rwa [List.length_ofFn]) (short.trans store.fits)

end BlockStore

end EduDevices
