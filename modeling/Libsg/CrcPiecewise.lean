/-
# A checksum taken in pieces

The branches of `crc32c` in `crc.cpp`, one of which a build has.  A checksum handed
over as the remainder of the next piece comes out as that of the whole, whichever
branch took which piece.
-/
import Libsg.CrcArmv8
import Libsg.CrcIntel

namespace Crc

/-- The branches of `crc32c`. -/
inductive Branch
  | intel (address : BitVec 64)
  | sse42
  | armv8
  | armv7
  | tabular
  deriving DecidableEq

/-- The instructions that the branches rest on. -/
structure Hardware where
  mm : Sse42Clmul
  crc32c : Acle
  vmull_p64 : BitVec 64 → BitVec 64 → BitVec 128

/-- What the instructions compute. -/
structure Hardware.Computes (hw : Hardware) : Prop where
  mm : hw.mm.Computes
  crc32c : hw.crc32c.Feeds 0x82f63b78#32
  vmull_p64 : ∀ a b, hw.vmull_p64 a b = ReflectedCrc.clmul 128 a b

/-- `crc32c` as a build with the branch has it. -/
def crc32cBy (hw : Hardware) (branch : Branch) (data : List (BitVec 8)) (length : ℕ)
    (remainder : BitVec 32) : Option (BitVec 32) :=
  match branch with
  | .intel address => crc32cByIntel hw.mm data length address remainder
  | .sse42 => crc32cBy32bit hw.mm.toSse42 data length remainder
  | .armv8 => crc32cByArmv8 hw.crc32c hw.vmull_p64 data length remainder
  | .armv7 => crc32cByArmv7 hw.crc32c data length remainder
  | .tabular => crc32c data length remainder

/-- Piece after piece, the checksum so far being the remainder. -/
def crc32cPieces (hw : Hardware) (pieces : List (Branch × List (BitVec 8)))
    (remainder : BitVec 32) : Option (BitVec 32) :=
  pieces.foldlM (fun remainder piece => crc32cBy hw piece.1 piece.2 piece.2.length remainder)
    remainder

/-- Below 4 GiB every branch is the checksum. -/
theorem crc32cBy_eq (hw : Hardware) (hhw : hw.Computes) (branch : Branch) (data : List (BitVec 8))
    (hdata : data.length < 2 ^ 32) (remainder : BitVec 32) :
    crc32cBy hw branch data data.length remainder =
      some (ReflectedCrc.crc 0x82f63b78#32 data remainder) := by
  rw [← crc32c_eq]
  cases branch with
  | intel address => exact intel_agrees hw.mm hhw.mm data (by omega) address remainder
  | sse42 => exact (crc32cBy32bit_agrees hw.mm.toSse42 hhw.mm.feeds).mpr (.inl hdata)
  | armv8 =>
    rw [crc32cBy, crc32cByArmv8, crc32cHardwareArmv8_eq hw.crc32c hhw.crc32c hw.vmull_p64
      hhw.vmull_p64 data _ _ (by rw [toNat_length]; exact Nat.mod_le _ _), toNat_length,
      Nat.mod_eq_of_lt hdata, List.take_length, crc32c_eq]
    rfl
  | armv7 => exact (crc32cByArmv7_agrees hw.crc32c hhw.crc32c).mpr (.inl hdata)
  | tabular => rfl

/-- **Pieces of less than 4 GiB, each by any branch, make up the checksum of the whole.** -/
theorem crc32cPieces_eq (hw : Hardware) (hhw : hw.Computes)
    (pieces : List (Branch × List (BitVec 8)))
    (hpieces : ∀ piece ∈ pieces, piece.2.length < 2 ^ 32) (remainder : BitVec 32) :
    crc32cPieces hw pieces remainder =
      crc32c (pieces.flatMap Prod.snd) (pieces.flatMap Prod.snd).length remainder := by
  rw [crc32cPieces, crc32c_eq]
  induction pieces generalizing remainder with
  | nil =>
    rw [List.flatMap_nil, ReflectedCrc.crc, ReflectedCrc.feed_nil, BitVec.not_not]
    rfl
  | cons piece pieces ih =>
    rw [List.foldlM_cons, crc32cBy_eq hw hhw _ _ (hpieces piece List.mem_cons_self),
      List.flatMap_cons, ReflectedCrc.crc_append]
    exact ih (fun p hp => hpieces p (List.mem_cons_of_mem piece hp)) _

/-- Instructions that do what they are documented to. -/
def bitwiseHardware : Hardware where
  mm := bitwiseSse42Clmul
  crc32c := bitwiseAcle 0x82f63b78#32
  vmull_p64 := ReflectedCrc.clmul 128

theorem bitwiseHardware_computes : bitwiseHardware.Computes where
  mm := bitwiseSse42Clmul_computes
  crc32c := bitwiseAcle_feeds _
  vmull_p64 _ _ := rfl

/-- Two pieces, by vectors and by tables. -/
theorem crc32cPieces_two :
    crc32cPieces bitwiseHardware [(.intel 3#64, [1#8, 2#8, 3#8]), (.tabular, [4#8])] 0#32 =
      crc32c [1#8, 2#8, 3#8, 4#8] 4 0#32 :=
  crc32cPieces_eq bitwiseHardware bitwiseHardware_computes
    [(.intel 3#64, [1#8, 2#8, 3#8]), (.tabular, [4#8])] (by decide) 0#32

end Crc
