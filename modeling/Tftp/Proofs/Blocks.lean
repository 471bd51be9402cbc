import Tftp.Packet.Parse
import Mathlib.Order.MinMax

/-!
# The blocks of a file

A file is cut into blocks of the agreed size, numbered from 1. All of them are full but the last,
which is shorter: it is empty if the size divides the length of the file, so there is always one.
Put together the blocks are the file (`flatMap_blockAt`).

On the wire a block number has 16 bits. `ofNat_ne_succ` says how much that is enough for: a number
is told from the next one, however often the numbers have wrapped around.
-/

namespace Tftp

/-! ## Cutting a file -/

def blockCount (size : Nat) (content : Bytes) : Nat := content.length / size + 1

/-- The block with the given number; the first is number 1. -/
def blockAt (size : Nat) (content : Bytes) (i : Nat) : Bytes :=
  (content.drop ((i - 1) * size)).take size

variable {size : Nat} {content : Bytes} {i : Nat}

theorem blockCount_pos : 0 < blockCount size content := Nat.succ_pos _

theorem length_blockAt : (blockAt size content i).length =
    min size (content.length - (i - 1) * size) := by
  rw [blockAt, List.length_take, List.length_drop]

theorem length_blockAt_le : (blockAt size content i).length ≤ size := by
  rw [length_blockAt]
  exact Nat.min_le_left ..

/-- The last block is the one that is not full. -/
theorem length_blockAt_lt_iff (hs : 0 < size) (hi : 1 ≤ i) (hc : i ≤ blockCount size content) :
    (blockAt size content i).length < size ↔ i = blockCount size content := by
  have hdm : size * (content.length / size) + content.length % size = content.length :=
    Nat.div_add_mod _ _
  have hm : content.length % size < size := Nat.mod_lt _ hs
  obtain ⟨j, rfl⟩ : ∃ j, i = j + 1 := ⟨i - 1, by omega⟩
  have hj : j ≤ content.length / size := by
    simpa [blockCount] using hc
  rw [length_blockAt, blockCount, Nat.add_sub_cancel, min_lt_iff]
  constructor
  · rintro (h | h)
    · exact absurd h (Nat.lt_irrefl _)
    · by_contra hne
      have hlt : j + 1 ≤ content.length / size := by omega
      have := Nat.mul_le_mul_right size hlt
      rw [Nat.succ_mul, Nat.mul_comm (content.length / size)] at this
      omega
  · intro h
    have hj : j = content.length / size := by omega
    right
    rw [hj, Nat.mul_comm]
    omega

/-- The last block is empty if the size divides the length of the file. -/
theorem blockAt_blockCount (h : size ∣ content.length) :
    blockAt size content (blockCount size content) = [] := by
  rw [blockAt, blockCount, Nat.add_sub_cancel, Nat.div_mul_cancel h, List.drop_length, List.take_nil]

theorem take_append_blockAt (i : Nat) :
    content.take (i * size) ++ blockAt size content (i + 1) = content.take ((i + 1) * size) := by
  rw [blockAt, Nat.add_sub_cancel, Nat.succ_mul, List.take_add]

theorem take_blockCount (hs : 0 < size) : content.take (blockCount size content * size) = content := by
  apply List.take_of_length_le
  have := Nat.lt_div_mul_add (a := content.length) hs
  rw [blockCount, Nat.succ_mul]
  omega

theorem flatMap_blockAt_range (n : Nat) :
    (List.range n).flatMap (fun i => blockAt size content (i + 1)) = content.take (n * size) := by
  induction n with
  | zero => simp
  | succ n ih => rw [List.range_succ, List.flatMap_append, ih, List.flatMap_singleton,
      take_append_blockAt]

/-- Put together, the blocks are the file. -/
theorem flatMap_blockAt (hs : 0 < size) : (List.range (blockCount size content)).flatMap
    (fun i => blockAt size content (i + 1)) = content := by
  rw [flatMap_blockAt_range, take_blockCount hs]

/-! ## Block numbers -/

theorem ofNat_succ (i : Nat) : UInt16.ofNat (i + 1) = UInt16.ofNat i + 1 := by
  simp

theorem ofNat_inj_of_lt {i j : Nat} (hi : i < 65536) (hj : j < 65536)
    (h : UInt16.ofNat i = UInt16.ofNat j) : i = j := by
  have := congrArg UInt16.toNat h
  simp only [UInt16.toNat_ofNat'] at this
  omega

/-- Two consecutive numbers are different, also where they wrap around. -/
theorem ofNat_ne_succ (i : Nat) : UInt16.ofNat i ≠ UInt16.ofNat (i + 1) := by
  intro h
  have := congrArg UInt16.toNat h
  simp only [UInt16.toNat_ofNat'] at this
  omega

end Tftp
