import RecompStudio.Cpu.Word

/-!
The instruction cache: 256 lines of four words, of which only the tags are kept.
A fetch that misses refills its line from the missing word to the end, so in a
line the valid words are a suffix.
-/

namespace RecompStudio.Runtime

/-- The place of a word in the tag array. -/
@[grind =] def icacheIndex (addr : Nat) : Nat := addr % 4096 / 4

/-- The tags after a miss: the words of the line in front of the missing one are
marked, the others hold their own address. -/
@[grind =] def refillTags (tv : Nat → Nat) (addr : Nat) (i : Nat) : Nat :=
  if i / 4 = addr % 4096 / 16 then
    addr / 16 * 16 + i % 4 * 4 + (if i % 4 < addr % 16 / 4 then 2 else 0)
  else tv i

/-- `s_icache_tv`. A word is valid when its tag is its address. -/
structure Icache where
  tv : Nat → Nat
  suffix_valid : ∀ a, a % 4 = 0 → a % 16 ≠ 12 → tv (icacheIndex a) = a →
    tv (icacheIndex (a + 4)) = a + 4

theorem refillTags_suffix {tv : Nat → Nat} {addr : Nat}
    (hValid : ∀ a, a % 4 = 0 → a % 16 ≠ 12 → tv (icacheIndex a) = a →
      tv (icacheIndex (a + 4)) = a + 4)
    (a : Nat) (hAligned : a % 4 = 0) (hInside : a % 16 ≠ 12)
    (hHit : refillTags tv addr (icacheIndex a) = a) :
    refillTags tv addr (icacheIndex (a + 4)) = a + 4 := by
  have hNext : icacheIndex (a + 4) = icacheIndex a + 1 := by
    unfold icacheIndex
    omega
  have hWord : icacheIndex a % 4 = a % 16 / 4 := by
    unfold icacheIndex
    omega
  rw [hNext]
  unfold refillTags at hHit ⊢
  by_cases hLine : icacheIndex a / 4 = addr % 4096 / 16
  · have hSame : (icacheIndex a + 1) / 4 = addr % 4096 / 16 := by omega
    rw [if_pos hLine] at hHit
    rw [if_pos hSame]
    split_ifs at hHit ⊢ <;> omega
  · have hOther : ¬(icacheIndex a + 1) / 4 = addr % 4096 / 16 := by omega
    rw [if_neg hLine] at hHit
    rw [if_neg hOther, ← hNext]
    exact hValid a hAligned hInside hHit

namespace Icache

/-- `psx_icache_reset`. -/
def reset : Icache where
  tv _ := 1
  suffix_valid a hAligned _ hHit := by omega

variable (c : Icache)

def Hits (addr : Nat) : Prop := c.tv (icacheIndex addr) = addr

instance (addr : Nat) : Decidable (c.Hits addr) :=
  inferInstanceAs (Decidable (c.tv (icacheIndex addr) = addr))

def refill (addr : Nat) : Icache where
  tv := refillTags c.tv addr
  suffix_valid := refillTags_suffix c.suffix_valid

variable {c} {a : Nat}

/-- The words behind a valid one are valid up to the end of the line. -/
theorem Hits.next (hHit : c.Hits a) (hAligned : a % 4 = 0) (hInside : (a + 4) % 16 ≠ 0) :
    c.Hits (a + 4) :=
  c.suffix_valid a hAligned (by omega) hHit

theorem hits_refill (hAligned : a % 4 = 0) : (c.refill a).Hits a := by
  have hLine : icacheIndex a / 4 = a % 4096 / 16 := by
    unfold icacheIndex
    omega
  have hWord : icacheIndex a % 4 = a % 16 / 4 := by
    unfold icacheIndex
    omega
  change refillTags c.tv a (icacheIndex a) = a
  rw [refillTags, if_pos hLine, hWord, if_neg (lt_irrefl _)]
  omega

/-- A place holds one tag, so another address of the same place misses. -/
theorem Hits.other (hHit : c.Hits a) {b : Nat} (hPlace : icacheIndex b = icacheIndex a)
    (hOther : b ≠ a) : ¬c.Hits b := by
  intro hBoth
  unfold Hits at hHit hBoth
  rw [hPlace, hHit] at hBoth
  exact hOther hBoth.symm

theorem not_hits_reset {b : Nat} (hAligned : b % 4 = 0) : ¬reset.Hits b := by
  change 1 ≠ b
  omega

end Icache

end RecompStudio.Runtime
