import Mathlib

/-!
# Byte memories

A memory gives each address a byte. A cell is a run of bytes that holds one
little-endian number. Stores to cells that do not overlap do not disturb each
other, so a batch of them reads back as stored. A record is a memory seen from
a base address.
-/

namespace Memory

/-- A byte for every address. -/
abbrev Bytes := Nat → UInt8

/-! ## Little-endian numbers -/

/-- The low `width` bytes of a number, least significant first. -/
def leBytes : (width : Nat) → Nat → List UInt8
  | 0, _ => []
  | width + 1, value => UInt8.ofNat value :: leBytes width (value / 256)

def leValue : List UInt8 → Nat
  | [] => 0
  | byte :: bytes => byte.toNat + 256 * leValue bytes

@[simp] theorem length_leBytes (width value : Nat) : (leBytes width value).length = width := by
  induction width generalizing value with
  | zero => rfl
  | succ width ih => simp [leBytes, ih]

theorem leValue_leBytes (width value : Nat) : leValue (leBytes width value) = value % 256 ^ width := by
  induction width generalizing value with
  | zero => simp [leBytes, leValue, Nat.mod_one]
  | succ width ih =>
    have hbyte : (UInt8.ofNat value).toNat = value % 256 := by simp
    rw [leBytes, leValue, ih, hbyte, Nat.pow_succ', Nat.mod_mul]

theorem leValue_lt (bytes : List UInt8) : leValue bytes < 256 ^ bytes.length := by
  induction bytes with
  | nil => simp [leValue]
  | cons byte bytes ih =>
    have hbyte := byte.toNat_lt
    rw [leValue, List.length_cons, Nat.pow_succ']
    omega

/-- Two byte strings of one length are told apart by their numbers. -/
theorem leValue_inj {bytes other : List UInt8} (hlength : bytes.length = other.length)
    (h : leValue bytes = leValue other) : bytes = other := by
  induction bytes generalizing other with
  | nil => exact (List.length_eq_zero_iff.1 hlength.symm).symm
  | cons byte bytes ih =>
    cases other with
    | nil => cases hlength
    | cons byte' other =>
      have hbyte := byte.toNat_lt
      have hbyte' := byte'.toNat_lt
      simp only [leValue] at h
      have hrest := ih (Nat.succ.inj hlength) (by omega)
      rw [hrest, UInt8.toNat_inj.1 (show byte.toNat = byte'.toNat by omega)]

/-! ## Reading and writing -/

variable {stores : List Store} {mem : Bytes}

def read (mem : Bytes) (offset length : Nat) : List UInt8 := (List.range length).map fun i => mem (offset + i)

def write (mem : Bytes) (offset : Nat) (bytes : List UInt8) : Bytes := fun address =>
  if offset ≤ address then (bytes[address - offset]?).getD (mem address) else mem address

@[simp] theorem length_read (mem : Bytes) (offset length : Nat) : (read mem offset length).length = length := by
  simp [read]

theorem write_outside {offset address : Nat} {bytes : List UInt8}
    (h : address < offset ∨ offset + bytes.length ≤ address) : write mem offset bytes address = mem address := by
  unfold write
  split
  · rw [List.getElem?_eq_none (by omega), Option.getD_none]
  · rfl

theorem read_congr {mem' : Bytes} {offset length : Nat}
    (h : ∀ address, offset ≤ address → address < offset + length → mem' address = mem address) :
    read mem' offset length = read mem offset length := by
  apply List.map_congr_left
  intro i hi
  exact h _ (by omega) (by have := List.mem_range.1 hi; omega)

theorem read_write_same (mem : Bytes) (offset : Nat) (bytes : List UInt8) :
    read (write mem offset bytes) offset bytes.length = bytes := by
  apply List.ext_getElem (by simp)
  intro i _ hi
  simp [read, write, hi]

/-! ## Cells -/

/-- The number a cell holds. -/
def load (mem : Bytes) (offset width : Nat) : Nat := leValue (read mem offset width)

structure Cell where
  offset : Nat
  width : Nat
  deriving DecidableEq, Repr

/-- The cell shares no byte with the range. -/
def Cell.Apart (self : Cell) (offset length : Nat) : Prop :=
  self.offset + self.width ≤ offset ∨ offset + length ≤ self.offset

instance (cell : Cell) (offset length : Nat) : Decidable (cell.Apart offset length) :=
  inferInstanceAs (Decidable (_ ∨ _))

/-- A store of one number into one cell. -/
structure Store extends Cell where
  value : Nat

namespace Store

def run (mem : Bytes) (self : Store) : Bytes := write mem self.offset (leBytes self.width self.value)

theorem run_outside {self : Store} {address : Nat}
    (h : address < self.offset ∨ self.offset + self.width ≤ address) : self.run mem address = mem address :=
  write_outside (by simpa using h)

theorem load_run (mem : Bytes) (self : Store) :
    load (self.run mem) self.offset self.width = self.value % 256 ^ self.width := by
  have h := read_write_same mem self.offset (leBytes self.width self.value)
  rw [length_leBytes] at h
  rw [load, run, h, leValue_leBytes]

end Store

/-- The stores in order. -/
def storeAll (mem : Bytes) (stores : List Store) : Bytes := stores.foldl (fun mem store => store.run mem) mem

@[simp] theorem storeAll_nil (mem : Bytes) : storeAll mem [] = mem := rfl

@[simp] theorem storeAll_cons (mem : Bytes) (store : Store) (stores : List Store) :
    storeAll mem (store :: stores) = storeAll (store.run mem) stores := rfl

theorem storeAll_append (mem : Bytes) (stores later : List Store) :
    storeAll mem (stores ++ later) = storeAll (storeAll mem stores) later := List.foldl_append

theorem storeAll_outside {address : Nat}
    (h : ∀ store ∈ stores, address < store.offset ∨ store.offset + store.width ≤ address) :
    storeAll mem stores address = mem address := by
  induction stores generalizing mem with
  | nil => rfl
  | cons store stores ih =>
    rw [storeAll_cons, ih fun later hlater => h later (.tail _ hlater), Store.run_outside (h store (.head _))]

theorem read_storeAll {offset length : Nat} (h : ∀ store ∈ stores, store.Apart offset length) :
    read (storeAll mem stores) offset length = read mem offset length := by
  apply read_congr
  intro address hlow hhigh
  apply storeAll_outside
  intro store hstore
  rcases h store hstore with h | h
  · exact .inr (by omega)
  · exact .inl (by omega)

theorem load_storeAll {offset width : Nat} (h : ∀ store ∈ stores, store.Apart offset width) :
    load (storeAll mem stores) offset width = load mem offset width := by
  rw [load, read_storeAll h, load]

/-- No two of the cells overlap. -/
def Separate (cells : List Cell) : Prop := cells.Pairwise fun cell later => later.Apart cell.offset cell.width

instance (cells : List Cell) : Decidable (Separate cells) := inferInstanceAs (Decidable (List.Pairwise _ _))

/-- Stores keep to a size as their cells do. -/
theorem inside_of_cells {size : Nat} (h : ∀ cell ∈ stores.map Store.toCell, cell.offset + cell.width ≤ size) :
    ∀ store ∈ stores, store.offset + store.width ≤ size :=
  fun _ hstore => h _ (List.mem_map_of_mem hstore)

/-- Cells apart from all others may be put anywhere among them. -/
theorem Separate.insert {before cells after : List Cell} (h : Separate (before ++ after)) (hcells : Separate cells)
    (hapart : ∀ cell ∈ cells, ∀ other ∈ before ++ after, cell.Apart other.offset other.width) :
    Separate (before ++ (cells ++ after)) := by
  obtain ⟨hbefore, hafter, hcross⟩ := List.pairwise_append.1 h
  refine List.pairwise_append.2 ⟨hbefore, List.pairwise_append.2 ⟨hcells, hafter, ?_⟩, ?_⟩
  · intro cell hcell other hother
    exact (hapart cell hcell other (List.mem_append_right _ hother)).symm
  · intro cell hcell other hother
    rcases List.mem_append.1 hother with hin | hin
    · exact hapart other hin cell (List.mem_append_left _ hcell)
    · exact hcross cell hcell other hin

/-- Every one of the cells holds what was stored there, cut to its width. -/
def Holds (mem : Bytes) (stores : List Store) : Prop :=
  ∀ store ∈ stores, load mem store.offset store.width = store.value % 256 ^ store.width

theorem holds_cons {store : Store} :
    Holds mem (store :: stores) ↔
      load mem store.offset store.width = store.value % 256 ^ store.width ∧ Holds mem stores := List.forall_mem_cons

theorem holds_append {others : List Store} :
    Holds mem (stores ++ others) ↔ Holds mem stores ∧ Holds mem others := List.forall_mem_append

theorem holds_nil (mem : Bytes) : Holds mem [] := nofun

/-- A cell wide enough for a byte string holds it as bytes. -/
theorem read_of_holds {offset : Nat} {bytes : List UInt8} (h : Holds mem stores)
    (hin : ⟨⟨offset, bytes.length⟩, leValue bytes⟩ ∈ stores) : read mem offset bytes.length = bytes := by
  have hload := h _ hin
  rw [Nat.mod_eq_of_lt (leValue_lt bytes)] at hload
  exact leValue_inj (length_read ..) hload

/-- A batch of stores to separate cells reads back as stored. -/
theorem holds_storeAll (h : Separate (stores.map Store.toCell)) (mem : Bytes) :
    Holds (storeAll mem stores) stores := by
  induction stores generalizing mem with
  | nil => exact holds_nil mem
  | cons first rest ih =>
    obtain ⟨hfirst, hrest⟩ := List.pairwise_cons.1 h
    refine holds_cons.2 ⟨?_, ih hrest _⟩
    -- The first store is not touched by any later one.
    rw [storeAll_cons, load_storeAll fun later hlater => hfirst _ (List.mem_map_of_mem hlater), Store.load_run]

/-! ## Tiles -/

section
variable {i j count : Nat} (size : Nat)

/-- A tile of an array lies inside it. -/
theorem tile_within (h : i < count) : i * size + size ≤ count * size := by
  rw [← Nat.succ_mul]
  exact Nat.mul_le_mul_right size h

/-- Two tiles of an array do not overlap. -/
theorem tiles_apart (h : i ≠ j) : i * size + size ≤ j * size ∨ j * size + size ≤ i * size := by
  rcases Nat.lt_or_gt_of_ne h with h | h
  · exact .inl (tile_within size h)
  · exact .inr (tile_within size h)

end

/-! ## Records -/

/-- The memory as seen from a base address. -/
def view (mem : Bytes) (base : Nat) : Bytes := fun address => mem (base + address)

def Store.shift (self : Store) (base : Nat) : Store := { self with offset := base + self.offset }

theorem read_view (mem : Bytes) (base offset length : Nat) :
    read (view mem base) offset length = read mem (base + offset) length := by
  simp only [read, view, Nat.add_assoc]

theorem load_view (mem : Bytes) (base offset width : Nat) :
    load (view mem base) offset width = load mem (base + offset) width := by
  rw [load, read_view, load]

theorem view_run (mem : Bytes) (store : Store) (base : Nat) :
    view ((store.shift base).run mem) base = store.run (view mem base) := by
  funext address
  simp only [view, Store.run, Store.shift, write, Nat.add_le_add_iff_left, Nat.add_sub_add_left]

theorem view_storeAll (mem : Bytes) (stores : List Store) (base : Nat) :
    view (storeAll mem (stores.map (·.shift base))) base = storeAll (view mem base) stores := by
  induction stores generalizing mem with
  | nil => rfl
  | cons store stores ih => rw [List.map_cons, storeAll_cons, ih, view_run, storeAll_cons]

theorem holds_shift {base : Nat} : Holds mem (stores.map (·.shift base)) ↔ Holds (view mem base) stores := by
  simp only [Holds, List.forall_mem_map, load_view]
  rfl

theorem separate_shift {base : Nat} :
    Separate ((stores.map (·.shift base)).map Store.toCell) ↔ Separate (stores.map Store.toCell) := by
  simp only [Separate, List.pairwise_map, Cell.Apart, Store.shift]
  constructor <;> exact List.Pairwise.imp fun h => by omega

/-! ## Arrays of records -/

/-- The stores of an array of records, the first at `base` and each one `size` bytes after the one before. -/
def arrayStores (base size : Nat) : List (List Store) → List Store
  | [] => []
  | record :: records => record.map (·.shift base) ++ arrayStores (base + size) size records

/-- Every record of the array keeps to its own tile. -/
def Tiled (size : Nat) (records : List (List Store)) : Prop :=
  ∀ record ∈ records, Separate (record.map Store.toCell) ∧ ∀ store ∈ record, store.offset + store.width ≤ size

theorem arrayStores_within {size : Nat} {records : List (List Store)} (h : Tiled size records) (base : Nat) :
    ∀ store ∈ arrayStores base size records,
      base ≤ store.offset ∧ store.offset + store.width ≤ base + records.length * size := by
  induction records generalizing base with
  | nil => nofun
  | cons record records ih =>
    intro store hstore
    rw [List.length_cons, Nat.succ_mul]
    rcases List.mem_append.1 hstore with hfirst | hrest
    · obtain ⟨inner, hinner, rfl⟩ := List.mem_map.1 hfirst
      have hinside := (h record (.head _)).2 inner hinner
      simp only [Store.shift]
      omega
    · have := ih (fun record hrecord => h record (.tail _ hrecord)) (base + size) store hrest
      omega

theorem arrayStores_separate {size : Nat} {records : List (List Store)} (h : Tiled size records) (base : Nat) :
    Separate ((arrayStores base size records).map Store.toCell) := by
  induction records generalizing base with
  | nil => exact List.Pairwise.nil
  | cons record records ih =>
    have hrest : Tiled size records := fun record hrecord => h record (.tail _ hrecord)
    rw [arrayStores, List.map_append]
    refine List.pairwise_append.2 ⟨separate_shift.2 (h record (.head _)).1, ih hrest (base + size), ?_⟩
    -- A later record starts where this one's tile ends.
    intro cell hcell later hlater
    obtain ⟨store, hstore, rfl⟩ := List.mem_map.1 hcell
    obtain ⟨inner, hinner, rfl⟩ := List.mem_map.1 hstore
    obtain ⟨other, hother, rfl⟩ := List.mem_map.1 hlater
    have hinside := (h record (.head _)).2 inner hinner
    have hafter := (arrayStores_within hrest (base + size) other hother).1
    refine .inr ?_
    simp only [Store.shift]
    omega

end Memory
