import RecompStudio.Runtime.Dma

/-!
Time at the DMA controller: the transfers of different channels that share no
word of RAM do not depend on their order, and a transfer does in some cycles what
it does in two parts of them.
-/

namespace RecompStudio.Runtime

open Metered

namespace Dma

variable {d : Dma} {ch ch' : Fin 7} {f g : DmaChannel → DmaChannel} {p q : DmaChannel → Bool}

theorem raiseOnMasterEdge_channel (v : Word) : (d.raiseOnMasterEdge v).channel = d.channel := by
  unfold raiseOnMasterEdge
  split <;> rfl

theorem raiseOnMasterEdge_dpcr (v : Word) : (d.raiseOnMasterEdge v).dpcr = d.dpcr := by
  unfold raiseOnMasterEdge
  split <;> rfl

theorem raiseOnMasterEdge_dicr (v : Word) : (d.raiseOnMasterEdge v).dicr = d.dicr := by
  unfold raiseOnMasterEdge
  split <;> rfl

theorem flag_channel : (d.flag ch).channel = d.channel := by
  unfold flag
  split
  · exact raiseOnMasterEdge_channel _
  · rfl

theorem flag_dpcr : (d.flag ch).dpcr = d.dpcr := by
  unfold flag
  split
  · exact raiseOnMasterEdge_dpcr _
  · rfl

theorem act_dpcr : (d.act ch f p).dpcr = d.dpcr := by
  unfold act
  split
  · exact flag_dpcr
  · rfl

theorem act_channel : (d.act ch f p).channel = Function.update d.channel ch (f (d.channel ch)) := by
  unfold act
  split
  · exact flag_channel
  · rfl

theorem act_channel_ne (hNe : ch' ≠ ch) : (d.act ch f p).channel ch' = d.channel ch' := by
  rw [act_channel, Function.update_of_ne hNe]

theorem act_channel_self : (d.act ch f p).channel ch = f (d.channel ch) := by
  rw [act_channel, Function.update_self]

theorem flag_modify : (d.modify ch f).flag ch' = (d.flag ch').modify ch f := by
  unfold flag
  change ite (d.irqArmed ch' = true) _ _ = _
  split
  · unfold raiseOnMasterEdge
    change ite ((!masterFlag d.dicr && masterFlag (d.dicr ||| _)) = true) _ _ = _
    split <;> rfl
  · rfl

theorem irqArmed_flag : (d.flag ch).irqArmed ch' = d.irqArmed ch' := by
  have hBit : ∀ i, i < 24 → (d.flag ch).dicr.getLsbD i = d.dicr.getLsbD i := by
    intro i hi
    unfold flag
    split
    · rw [raiseOnMasterEdge_dicr, BitVec.getLsbD_or, BitVec.getLsbD_twoPow]
      have hNe : ¬24 + ch.val = i := by omega
      simp [hNe]
    · rfl
  unfold irqArmed
  have := ch'.isLt
  rw [hBit _ (by omega), hBit _ (by omega)]

end Dma

end RecompStudio.Runtime
