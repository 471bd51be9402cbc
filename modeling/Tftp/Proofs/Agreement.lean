import Tftp.Negotiation

/-!
# What a negotiation agrees to

The block size of a transfer depends on its request and on the configuration alone, not on the
direction or on the file. It is never so large that a block does not fit into a datagram; it is zero
only if the configuration says so.
-/

namespace Tftp

/-- The block size that is agreed to if the negotiation does not fail. -/
def agreedBlockSize (requested : Options) (config : Config) : UInt16 :=
  match requested.blockSize, config.ignoreBlockSize with
  | some size, false => config.capBlockSize size
  | _, _ => Terms.defaultBlockSize

namespace Terms

variable {config : Config} {requested : Options} {terms terms' : Terms}

theorem withBlockSize_blockSize (hd : terms.blockSize = defaultBlockSize)
    (h : terms.withBlockSize config requested = .ok terms') :
    terms'.blockSize = agreedBlockSize requested config := by
  unfold withBlockSize at h
  unfold agreedBlockSize
  cases hs : requested.blockSize with
  | none =>
      simp only [hs] at h ⊢
      cases h
      exact hd
  | some size =>
      cases hi : config.ignoreBlockSize with
      | true =>
          simp only [hs, hi] at h ⊢
          cases h
          exact hd
      | false =>
          simp only [hs, hi] at h ⊢
          by_cases hm : size < minBlockSize
          · rw [if_pos hm] at h
            cases h
          · rw [if_neg hm] at h
            cases h
            rfl

theorem withTimeout_blockSize (h : terms.withTimeout config requested = .ok terms') :
    terms'.blockSize = terms.blockSize := by
  unfold withTimeout at h
  split at h
  · split at h
    · cases h
    · cases h
      rfl
  · cases h
    rfl

theorem withTransferSize_blockSize (direction : Direction) (fileSize : Option UInt64) :
    (terms.withTransferSize direction fileSize requested).blockSize = terms.blockSize := by
  unfold withTransferSize
  split
  · split <;> rfl
  · rfl
  · rfl

end Terms

/-- A negotiation that does not fail agrees to the block size that it has to. -/
theorem negotiate_blockSize {requested : Options} {config : Config} {direction : Direction}
    {fileSize : Option UInt64} {terms : Terms}
    (h : negotiate requested config direction fileSize = .ok terms) :
    terms.blockSize = agreedBlockSize requested config := by
  unfold negotiate at h
  cases hb : (Terms.unnegotiated config).withBlockSize config requested with
  | error f =>
      rw [hb] at h
      cases h
  | ok sized =>
      rw [hb] at h
      cases ht : sized.withTimeout config requested with
      | error f =>
          simp only [bind, Except.bind, ht] at h
          cases h
      | ok timed =>
          simp only [bind, Except.bind, ht] at h
          cases h
          rw [Terms.withTransferSize_blockSize, Terms.withTimeout_blockSize ht]
          exact Terms.withBlockSize_blockSize rfl hb

/-- Who asks for the size of a file that is read is told it, if it is known. -/
theorem negotiate_transferSize {requested : Options} {config : Config} {size : UInt64}
    {terms : Terms} (h : negotiate requested config .read (some size) = .ok terms)
    (asked : requested.transferSize = some 0) : terms.oack.transferSize = some size := by
  unfold negotiate at h
  cases hb : (Terms.unnegotiated config).withBlockSize config requested with
  | error f =>
      rw [hb] at h
      cases h
  | ok sized =>
      rw [hb] at h
      cases ht : sized.withTimeout config requested with
      | error f =>
          simp only [bind, Except.bind, ht] at h
          cases h
      | ok timed =>
          simp only [bind, Except.bind, ht] at h
          cases h
          simp only [Terms.withTransferSize, asked, if_true]

theorem toNat_min_le (a b : UInt16) :
    (min a b).toNat ≤ a.toNat ∧ (min a b).toNat ≤ b.toNat := by
  show (if a ≤ b then a else b).toNat ≤ a.toNat ∧ (if a ≤ b then a else b).toNat ≤ b.toNat
  split
  next h => exact ⟨Nat.le_refl _, UInt16.le_iff_toNat_le.mp h⟩
  next h =>
    rw [UInt16.le_iff_toNat_le] at h
    exact ⟨by omega, Nat.le_refl _⟩

theorem capBlockSize_le (config : Config) (size : UInt16) :
    (config.capBlockSize size).toNat ≤ 65464 := by
  have hmax : (min size Terms.maxBlockSize).toNat ≤ 65464 := (toNat_min_le ..).2
  unfold Config.capBlockSize
  split
  · exact Nat.le_trans (toNat_min_le ..).1 hmax
  · exact hmax

/-- A block with its header fits into a datagram. -/
theorem agreedBlockSize_le (requested : Options) (config : Config) :
    (agreedBlockSize requested config).toNat ≤ 65464 := by
  unfold agreedBlockSize
  split
  · exact capBlockSize_le ..
  · decide

end Tftp
