import RecompStudio.Runtime.DmaLanes

/-!
The transfers that move all their words when they are started: the GPU, the SPU
and the ordering table. The GPU and the SPU are devices behind the controller
with interfaces of their own.
-/

namespace RecompStudio.Runtime

/-- What `psx_write_word` knows of the store it works for: whether the game has
started, and the address of the last store of the CPU, which is the one that
started the transfer. -/
structure StoreContext where
  gameStarted : Bool
  storePc : Word
deriving DecidableEq, Repr

namespace StoreContext

/-- The stores whose word at address zero is taken for the scratch of a delay
loop. -/
def delayStores : List Word :=
  [0xBFC04E90, 0xBFC04EF0, 0xBFC05164, 0xBFC0D634, 0xBFC3EEB4, 0xBFC405E4, 0xBFC40788, 0xBFC41C50,
    0x80012434, 0x800125AC]

/-- The addresses whose words `psx_write_word_raw` leaves out whatever they are. -/
def skips (c : StoreContext) (phys : Word) : Bool :=
  c.gameStarted &&
    (decide (phys < 0x10) && c.storePc == 0xBFC10A00 || phys == 0 && delayStores.contains c.storePc)

/-- The store of the BIOS helper that arms card events again. -/
def cardHelper (c : StoreContext) : Bool := c.gameStarted && c.storePc == 0xBFC117E4

def cardSpecs : List Word := [0x4, 0x8000, 0x100, 0x200, 0x2000]

/-- The word would arm a card event again that the game has not seen. -/
def rearmsCardEvent (ram : Word → Word) (phys val : Word) : Bool :=
  val == 0x2000 && decide (4 ≤ phys.toNat) && decide (phys.toNat + 8 < 0x200000) &&
    ram phys == 0x4000 && ram (phys - 4) == 0xF0000011 && ram (phys + 8) == 0x2000 &&
    cardSpecs.contains (ram (phys + 4))

/-- The words for main memory that `psx_write_word_raw` leaves out. -/
@[grind =] def drops (c : StoreContext) (ram : Word → Word) (phys val : Word) : Bool :=
  c.skips phys || c.cardHelper && rearmsCardEvent ram phys val

/-- `psx_write_word` for a word of main memory, behind a store of the CPU that the
isolated cache has not caught. -/
@[grind =] def storeWord (c : StoreContext) (ram : Word → Word) (phys val : Word) : Word → Word :=
  if c.drops ram phys val then ram else Function.update ram phys val

end StoreContext

/-- The GPU, as the channel uses it. A word for GP0 comes with its source. -/
structure GpuDevice (γ : Type) where
  readGpuread : γ → γ × Word
  writeGp0 : γ → Word → Word → γ

/-- The SPU, as the channel uses it. -/
structure SpuDevice (σ : Type) where
  dmaWrite : σ → Word → σ

/-- A number of words, one after the other, and the address behind them. -/
def moveWords {α : Type} (word : Word → α → α) (back : Bool) : Nat → Word → α → Word × α
  | 0, addr, a => (addr, a)
  | n + 1, addr, a => moveWords word back n (nextAddr back addr) (word addr a)

/-- What a transfer that moves all its words leaves. -/
structure Moved (δ : Type) where
  device : δ
  ram : Word → Word
  madr : Word
  words : Nat

namespace DmaChannel

def syncMode (c : DmaChannel) : BitVec 2 := c.chcr.extractLsb' 9 2

def blockSize (c : DmaChannel) : Nat := (c.bcr.extractLsb' 0 16).toNat

def blockCount (c : DmaChannel) : Nat := (c.bcr.extractLsb' 16 16).toNat

/-- A block size of zero stands for the largest one. -/
@[grind =] def fullBlock (c : DmaChannel) : Nat := if c.blockSize = 0 then 0x10000 else c.blockSize

/-- The address of a transfer, in main memory. -/
def base (c : DmaChannel) : Word := c.madr &&& 0x1FFFFC

def fromRam (c : DmaChannel) : Bool := c.chcrBit 0

def back (c : DmaChannel) : Bool := c.chcrBit 1

end DmaChannel

section Gpu

variable {γ : Type} (G : GpuDevice γ) (ram : Word → Word)

/-- Words of RAM for GP0. -/
def sendWord (addr : Word) (g : γ) : γ := G.writeGp0 g addr (ram addr)

/-- The number of headers after which a walk is given up. -/
@[grind =] def maxNodes : Nat := 0x40000

/-- The walk along a list of nodes, for at most `fuel` of them: the GPU, the words
that have been read, and the new address. The last node that a walk may visit
leaves its own address even when it ends the list. -/
@[grind =] def walkList : Nat → Word → γ → Nat → Moved γ
  | 0, addr, g, words => ⟨g, ram, addr, words⟩
  | fuel + 1, addr, g, words =>
      let header := ram addr
      let count := (header.extractLsb' 24 8).toNat
      let sent := (moveWords (sendWord G ram) false count ((addr + 4) &&& 0x1FFFFC) g).2
      if header &&& 0xFFFFFF = 0xFFFFFF then
        ⟨sent, ram, if fuel = 0 then addr else 0xFFFFFF, words + 1 + count⟩
      else walkList fuel (header &&& 0xFFFFFF &&& 0x1FFFFC) sent (words + 1 + count)

/-- A word of the GPU for RAM. -/
def fetchWord (ctx : StoreContext) (addr : Word) (p : γ × (Word → Word)) : γ × (Word → Word) :=
  let read := G.readGpuread p.1
  (read.1, ctx.storeWord p.2 addr read.2)

/-- `execute_ch2_gpu`. -/
def executeCh2Gpu (ctx : StoreContext) (c : DmaChannel) (g : γ) : Moved γ :=
  if !c.fromRam then
    if c.syncMode = 1 then
      let moved := moveWords (fetchWord G ctx) c.back (c.blockSize * c.blockCount) c.base (g, ram)
      ⟨moved.2.1, moved.2.2, moved.1, c.blockSize * c.blockCount⟩
    else ⟨g, ram, c.madr, 0⟩
  else if c.syncMode = 1 then
    let moved := moveWords (sendWord G ram) c.back (c.blockSize * c.blockCount) c.base g
    ⟨moved.2, ram, moved.1, c.blockSize * c.blockCount⟩
  else if c.syncMode = 2 then walkList G ram (maxNodes + 1) c.base g 0
  else
    let moved := moveWords (sendWord G ram) c.back c.fullBlock c.base g
    ⟨moved.2, ram, moved.1, c.fullBlock⟩

end Gpu

/-- `execute_ch4_spu`, with the words that have been moved. -/
def executeCh4Spu {σ : Type} (S : SpuDevice σ) (ctx : StoreContext) (c : DmaChannel) (words : Nat)
    (spu : σ) (ram : Word → Word) : Moved σ :=
  if c.fromRam then
    let moved := moveWords (fun addr s => S.dmaWrite s (ram addr)) c.back words c.base spu
    ⟨moved.2, ram, moved.1, words⟩
  else
    let moved := moveWords (fun addr r => ctx.storeWord r addr 0) c.back words c.base ram
    ⟨spu, moved.2, moved.1, words⟩

/-- The link of an entry: to the entry below it, or the end of the list. -/
def otcLink (left : Nat) (addr : Word) : Word :=
    if left = 1 then 0xFFFFFF else (addr - 4) &&& 0xFFFFFF

/-- The loop of `execute_ch6_otc` with the entries that are left. -/
def otcLoop (ctx : StoreContext) : Nat → Word → (Word → Word) → (Word → Word)
  | 0, _, ram => ram
  | left + 1, addr, ram =>
      otcLoop ctx left ((addr - 4) &&& 0x1FFFFC) (ctx.storeWord ram addr (otcLink (left + 1) addr))

/-- `execute_ch6_otc`. -/
@[grind =]
def executeCh6Otc (ctx : StoreContext) (c : DmaChannel) (ram : Word → Word) : Word → Word :=
  otcLoop ctx c.fullBlock c.base ram

end RecompStudio.Runtime
