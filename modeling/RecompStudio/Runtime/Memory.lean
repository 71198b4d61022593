import RecompStudio.Cpu.Word

/-!
The main memory of the runtime and the three guards that its store path feeds:
the kernel bless for BIOS bodies, the text guard for the game image, and the
generation counters of watched overlay pages.
-/

namespace RecompStudio.Runtime

abbrev Byte := BitVec 8

def ramSize : Nat := 0x200000

/-- The 4 KB page of a physical address. -/
@[grind =] def pageOf (phys : Nat) : Nat := phys / 4096

/-- A bitmap with one bit set. -/
@[grind =]
def setBit (bits : Nat → Bool) (page : Nat) : Nat → Bool := fun p =>
    if p = page then true else bits p

/-- A bitmap with the bits of a page interval set to a value. -/
def setBits (bits : Nat → Bool) (first last : Nat) (v : Bool) : Nat → Bool :=
  fun p => if first ≤ p ∧ p ≤ last then v else bits p

/-- The widths of a store. -/
inductive Width where
  | byte | half | word
deriving DecidableEq, Repr

def Width.bytes : Width → Nat
  | .byte => 1
  | .half => 2
  | .word => 4

theorem Width.bytes_pos (w : Width) : 0 < w.bytes := by cases w <;> decide

/-- Byte `i` of a stored value. -/
def byteOf (val : Word) (i : Nat) : Byte := val.extractLsb' (8 * i) 8

/-- The bytes after a store of `size` bytes. -/
def writeBytes (ram : Nat → Byte) (phys size : Nat) (val : Word) : Nat → Byte :=
  fun a => if phys ≤ a ∧ a < phys + size then byteOf val (a - phys) else ram a

theorem writeBytes_of_outside {ram : Nat → Byte} {phys size a : Nat} (val : Word)
    (hOutside : a < phys ∨ phys + size ≤ a) : writeBytes ram phys size val a = ram a := by
  rw [writeBytes, if_neg]
  omega

/-- A body of the generated kernel table. -/
structure KernelBody where
  key : Nat
  lo : Nat
  hi : Nat
deriving DecidableEq, Repr

/-- The generated table: sorted by key, with keys and bodies inside the kernel
window, and the switch of the environment. -/
structure KernelBodies where
  bodies : List KernelBody
  enabled : Bool
  sorted : (bodies.map KernelBody.key).Pairwise (· < ·)
  inside : ∀ b ∈ bodies, 0x500 ≤ b.lo ∧ b.lo < b.hi ∧ b.hi ≤ 0x8500
  keys : ∀ b ∈ bodies, 0x500 ≤ b.key ∧ b.key < 0x8500

/-- The cached verdict on a body. -/
inductive BlessState where
  | unknown | clean | mismatch
deriving DecidableEq, Repr

/-- The boot image that the game code was compiled from, by physical address. -/
structure TextImage where
  lo : Nat
  hi : Nat
  bytes : Nat → Byte
  hi_le : hi ≤ ramSize

structure TextGuard where
  image : Option TextImage
  modified : Nat → Bool
  diverged : Nat → Bool
  active : Bool

/-- The counters of the watched pages are exact here. The source keeps their
low 32 bits, so that sums of them are only compared modulo `2 ^ 32`. -/
structure Memory where
  ram : Nat → Byte
  rom : Nat → Byte
  dirty : Nat → Bool
  bless : Nat → BlessState
  text : TextGuard
  watched : Nat → Bool
  pageGen : Nat → Nat

/-- One body at the address `0x600`. -/
def oneBody : KernelBodies where
  bodies := [⟨0x600, 0x600, 0x610⟩]
  enabled := true
  sorted := by simp
  inside := by simp
  keys := by simp

/-- Memory full of zeros. -/
def zeroMemory : Memory where
  ram := fun _ => 0
  rom := fun _ => 0
  dirty := fun _ => false
  bless := fun _ => .unknown
  text := ⟨none, fun _ => false, fun _ => false, false⟩
  watched := fun _ => false
  pageGen := fun _ => 0

namespace KernelBodies

variable (T : KernelBodies)

/-- `kbless_on`: a table that is too large switches the bless off. -/
def on : Bool := T.enabled && T.bodies.length ≤ 4096

/-- The loop of `kbless_find`, for at most `fuel` iterations. -/
@[grind =] def findLoop (phys : Nat) : Nat → Nat → Nat → Option Nat
  | 0, _, _ => none
  | fuel + 1, lo, hi =>
      if lo < hi then
        match T.bodies[(lo + hi) / 2]? with
        | none => none
        | some b =>
            if b.key = phys then some ((lo + hi) / 2)
            else if b.key < phys then findLoop phys fuel ((lo + hi) / 2 + 1) hi
            else findLoop phys fuel lo ((lo + hi) / 2)
      else none

/-- `kbless_find`. -/
def find (phys : Nat) : Option Nat := T.findLoop phys T.bodies.length 0 T.bodies.length

/-- The bodies with the verdicts that a condition picks reset. -/
def reset (bless : Nat → BlessState) (p : KernelBody → Bool) : Nat → BlessState := fun i =>
  match T.bodies[i]? with
  | none => bless i
  | some b => if p b then .unknown else bless i

end KernelBodies

/-- The live bytes of a body are those of the ROM. -/
@[grind =] def bodyMatches (ram rom : Nat → Byte) (b : KernelBody) : Bool :=
  (List.range (b.hi - b.lo)).all fun i => ram (b.lo + i) == rom (0x10000 + (b.lo - 0x500) + i)

namespace Memory

variable (T : KernelBodies) (m : Memory)

/-- `kbless_note_write`: the address is the first byte of the store. -/
@[grind =] def kblessNoteWrite (phys : Nat) : Memory :=
  if 0x500 ≤ phys ∧ phys < 0x8500 ∧ T.on then
    { m with bless := T.reset m.bless fun b => b.lo ≤ phys ∧ phys < b.hi }
  else m

/-- `psx_kernel_bless_note_range`. -/
@[grind =] def blessNoteRange (phys len : Nat) : Memory :=
  if len = 0 ∨ phys + len ≤ 0x500 ∨ 0x8500 ≤ phys ∨ 4096 < T.bodies.length then m
  else { m with bless := T.reset m.bless fun _ => true }

/-- `psx_kernel_bless_dispatchable`. -/
@[grind =] def blessDispatchable (phys : Nat) : Memory × Bool :=
  if 0x500 ≤ phys ∧ phys < 0x8500 ∧ T.on then
    match T.find phys with
    | none => (m, false)
    | some i =>
        match m.bless i, T.bodies[i]? with
        | .clean, _ => (m, true)
        | .mismatch, _ => (m, false)
        | .unknown, none => (m, false)
        | .unknown, some b =>
            let ok := bodyMatches m.ram m.rom b
            ({ m with bless := fun j => if j = i then (if ok then .clean else .mismatch)
                else m.bless j }, ok)
  else (m, false)

/-- `dirty_ram_mark_kernel_write`: only the kernel window tracks CPU stores. -/
@[grind =] def markKernelWrite (phys : Nat) : Memory :=
  if phys < 0x10000 then
    ({ m with dirty := setBit m.dirty (pageOf phys) } : Memory).kblessNoteWrite T phys
  else m

/-- `dirty_ram_is_dirty`. -/
def isDirty (phys : Nat) : Bool := phys < ramSize && m.dirty (pageOf phys)

/-- `dirty_ram_register_text_image`, with the image as a function of the address. -/
def registerTextImage (physLo len : Nat) (bytes : Nat → Byte) : Memory :=
  if h : len = 0 ∨ ramSize ≤ physLo then m
  else
    { m with text :=
        { image := some ⟨physLo, physLo + min len (ramSize - physLo), bytes, by omega⟩
          modified := fun _ => false
          diverged := fun _ => false
          active := false } }

/-- `text_guard_note_write`: a store inside the image that differs from it marks
the page of its first byte. -/
@[grind =] def textNoteWrite (phys size : Nat) (val : Word) : Memory :=
  match m.text.image with
  | none => m
  | some img =>
      if img.lo ≤ phys ∧ phys + size ≤ img.hi ∧
          (List.range size).any (fun i => img.bytes (phys + i) != byteOf val i) then
        { m with text.modified := setBit m.text.modified (pageOf phys) }
      else m

/-- `dirty_ram_text_native_ok`. -/
@[grind =] def textNativeOk (phys : Nat) : Memory × Bool :=
  match m.text.image with
  | none => (m, !m.isDirty phys)
  | some img =>
      if phys < img.lo ∨ img.hi ≤ phys then (m, !m.isDirty phys)
      else if m.text.active && m.text.diverged (pageOf phys) then (m, false)
      else if !m.text.modified (pageOf phys) && !m.isDirty phys then (m, true)
      else if (List.range (min 256 (img.hi - phys))).all
          (fun i => m.ram (phys + i) == img.bytes (phys + i)) then (m, true)
      else if m.text.active then
        ({ m with text.diverged := setBit m.text.diverged (pageOf phys) }, false)
      else (m, false)

/-- `dirty_ram_text_bless`, with the patch as a function of the address. -/
def textBless (phys len : Nat) (bytes : Nat → Byte) : Memory :=
  match m.text.image with
  | none => m
  | some img =>
      let lo := max phys img.lo
      let hi := min (phys + len) img.hi
      if hi ≤ lo then m
      else if (List.range (hi - lo)).all (fun i => img.bytes (lo + i) == bytes (lo + i)) then m
      else
        { m with
          text.image := some { img with
            bytes := fun a => if lo ≤ a ∧ a < hi then bytes a else img.bytes a }
          text.diverged := setBits m.text.diverged (pageOf lo) (pageOf (hi - 1)) false }

/-- `dirty_ram_mark_executable_range`. -/
def markExecutableRange (phys len : Nat) : Memory :=
  if len = 0 ∨ ramSize ≤ phys then m
  else
    { m.blessNoteRange T phys len with
      dirty := setBits m.dirty (pageOf phys) (pageOf (min (phys + len - 1) (ramSize - 1))) true }

/-- `dirty_ram_clear_image_baseline` with the overlay floor. -/
def clearImageBaseline (floor : Nat) : Memory :=
  if floor ≤ 0x10000 then m
  else
    let dirty := setBits m.dirty (pageOf 0x10000) (pageOf (min floor ramSize - 1)) false
    match m.text.image with
    | none => { m with dirty := dirty }
    | some img =>
        { m with dirty := dirty, text := ⟨some img, fun _ => false, fun _ => false, true⟩ }

/-- `overlay_watch_set_range`. -/
def watchSetRange (phys len : Nat) : Memory :=
  if len = 0 ∨ ramSize ≤ phys then m
  else
    { m with watched :=
        setBits m.watched (pageOf phys) (pageOf (min (phys + len - 1) (ramSize - 1))) true }

/-- `overlay_watch_pagegen_sum`. -/
def pagegenSum (phys len : Nat) : Nat :=
  if len = 0 ∨ ramSize ≤ phys then 0
  else
    let last := pageOf (min (phys + len - 1) (ramSize - 1))
    ((List.range (last + 1 - pageOf phys)).map fun i => m.pageGen (pageOf phys + i)).sum

/-- `overlay_watch_note_write`: the page of the first byte. -/
@[grind =] def watchNoteWrite (phys : Nat) : Memory :=
  if m.watched (pageOf phys) then
    { m with pageGen := fun p => if p = pageOf phys then m.pageGen p + 1 else m.pageGen p }
  else m

/-- A store of `size` bytes that reaches main memory, as `psx_write_word_raw`,
`psx_write_half_raw` and `psx_write_byte_raw` perform it. -/
def write (phys size : Nat) (val : Word) : Memory :=
  let noted := ((m.markKernelWrite T phys).textNoteWrite phys size val).watchNoteWrite phys
  { noted with ram := writeBytes m.ram phys size val }

theorem write_ram (phys size : Nat) (val : Word) :
    (m.write T phys size val).ram = writeBytes m.ram phys size val := rfl

end Memory

end RecompStudio.Runtime
