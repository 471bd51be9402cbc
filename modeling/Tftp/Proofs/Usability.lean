import Tftp.Program
import Tftp.Proofs.Choices
import Tftp.Proofs.Measures

/-!
# What the command line makes possible

The command line admits only parameters that transfers can work with, and all that follows from it
stays within bounds: what has been read of it (`Follows.within`), the terms that are negotiated under
it (`Config.Moderate.negotiate`), and what every transfer says under these terms
(`Server.Measured.usable`).

    arguments ──parse──▶ config ──negotiate──▶ terms ──turns──▶ blocks
-/

namespace Tftp

/-! ## Bounds -/

/-- The policy of a server that leaves room for transfers. -/
structure Config.Moderate (config : Config) : Prop where
  timeout : 1000 ≤ config.timeout ∧ config.timeout ≤ 255000
  blockSizeLimit : ∀ limit, config.blockSizeLimit = some limit →
    8 ≤ limit.toNat ∧ limit.toNat ≤ 65464

/-- Terms under which a file can be transferred: blocks are not empty and fit into a datagram, and it
takes time until a packet is sent again. -/
structure Terms.Usable (terms : Terms) : Prop where
  blockSize : 8 ≤ terms.blockSize.toNat ∧ terms.blockSize.toNat ≤ 65464
  timeout : 1000 ≤ terms.timeout ∧ terms.timeout ≤ 255000

namespace Config.Moderate

variable {config : Config} (h : config.Moderate)

include h

theorem unnegotiated : (Terms.unnegotiated config).Usable :=
  ⟨(by decide : 8 ≤ Terms.defaultBlockSize.toNat ∧ Terms.defaultBlockSize.toNat ≤ 65464), h.timeout⟩

theorem usable {requested : Options} {direction : Direction} {fileSize : Option UInt64} {terms : Terms}
    (small : ¬ requested.TooSmall config) (short : ¬ requested.TooShort config)
    (settled : terms.Settled requested config direction fileSize) : terms.Usable := by
  constructor
  · -- The smallest size that is not refused is also the smallest limit, so their minimum is no less.
    rcases heeded_or requested.blockSize config.ignoreBlockSize with ⟨size, hs, hi⟩ | hu
    · have h8 : 8 ≤ size.toNat := by
        by_contra hlt
        exact small ⟨size, hs, hi, by omega⟩
      rw [(settled.blockSize.heeded size hs hi).1]
      cases hl : config.blockSizeLimit with
      | none =>
          show 8 ≤ min (min size.toNat 65464) 65464 ∧ _
          omega
      | some limit =>
          have := h.blockSizeLimit limit hl
          show 8 ≤ min (min size.toNat 65464) limit.toNat ∧ min _ limit.toNat ≤ _
          omega
    · rw [(settled.blockSize.unheeded hu).1]
      decide
  · rcases heeded_or requested.timeout config.ignoreTimeout with ⟨seconds, hs, hi⟩ | hu
    · have hne : seconds.toNat ≠ 0 := by
        intro h0
        have h0 : seconds = 0 := UInt8.toNat_inj.1 h0
        exact short ⟨h0 ▸ hs, hi⟩
      have hlt := seconds.toNat_lt
      rw [(settled.timeout.heeded seconds hs hi).1]
      omega
    · rw [(settled.timeout.unheeded hu).1]
      exact h.timeout

/-- **What is negotiated is usable**, unless the options are refused. -/
theorem negotiate (requested : Options) (direction : Direction) (fileSize : Option UInt64) :
    match Tftp.negotiate requested config direction fileSize with
    | .ok terms => terms.Usable
    | .error f => ∃ r, f = .transfer r ∧ r.code = .invalidOptions := by
  rcases negotiate_cases requested config direction fileSize with
    ⟨-, r, hr, hn⟩ | ⟨hne, terms, hn, settled⟩
  · rw [hn]
    exact ⟨r, rfl, hr⟩
  · rw [hn]
    exact h.usable (fun hs => hne (.inl hs)) (fun ht => hne (.inr ht)) settled

end Config.Moderate

namespace CommandLine

/-- What can be read of a command line is within bounds. -/
structure Within (line : CommandLine) : Prop where
  port : 1 ≤ line.port.toNat
  timeout : line.config.timeout = 3000 ∨
    ∃ seconds : Nat, 1 ≤ seconds ∧ seconds ≤ 255 ∧ line.config.timeout = 1000 * seconds
  blockSizeLimit : ∀ limit, line.config.blockSizeLimit = some limit →
    8 ≤ limit.toNat ∧ limit.toNat ≤ 65464
  retries : line.config.maxRetries ≤ 1000000

variable {line : CommandLine} {choices : List Choice}

theorem Gives.bounds {flag : Flag} {lo hi n : Nat} (h : Gives flag lo hi choices (some n)) :
    lo ≤ n ∧ n ≤ hi := by
  cases h with
  | value _ hd => exact hd.2

theorem Follows.within (h : Follows choices line) : Within line where
  port := by
    obtain ⟨n?, hg, hn⟩ := h.port
    cases n? with
    | none => rw [hn]; decide
    | some n => rw [hn]; exact hg.bounds.1
  timeout := by
    obtain ⟨n?, hg, hn⟩ := h.timeout
    cases n? with
    | none => exact .inl hn
    | some n => exact .inr ⟨n, hg.bounds.1, hg.bounds.2, by rw [hn]; exact Int.natCast_mul ..⟩
  blockSizeLimit limit hl := by
    have hg := h.blockSizeLimit
    rw [hl] at hg
    exact hg.bounds
  retries := by
    obtain ⟨n?, hg, hn⟩ := h.retries
    cases n? with
    | none => rw [hn]; decide
    | some n => rw [hn]; exact hg.bounds.2

theorem Within.moderate (h : Within line) : line.config.Moderate where
  timeout := by
    rcases h.timeout with h | ⟨n, hlo, hhi, h⟩ <;> omega
  blockSizeLimit := h.blockSizeLimit

end CommandLine

/-! ## What is said under such a policy -/

/-- The terms by which a transfer is measured are usable. -/
theorem Server.Measured.usable {S : Storage} {config : Config} {t : Transfer S} {terms : Terms}
    {turns : List (Passage S × List Event)} (h : Server.Measured config t terms turns)
    (moderate : config.Moderate) : terms.Usable := by
  rcases h.settled with rfl | ⟨fileSize, hn⟩
  · exact moderate.unnegotiated
  · have hu := moderate.negotiate t.request.options t.direction fileSize
    rwa [hn] at hu

/-- Under usable terms no block but the last is empty. -/
theorem Server.Measured.ne_nil {S : Storage} {config : Config} {t : Transfer S} {terms : Terms}
    {turns : List (Passage S × List Event)} (h : Server.Measured config t terms turns)
    (usable : terms.Usable) :
    ∀ payload ∈ (payloads (Server.said t.peer turns)).dropLast, payload ≠ [] := by
  intro payload hm
  have hlength := h.full payload hm
  have hsize := usable.blockSize.1
  exact List.ne_nil_of_length_pos (by omega)

/-- A block that is not longer than the block size fits into a datagram. -/
theorem Terms.Usable.length_data {terms : Terms} (h : terms.Usable) {block : UInt16}
    {payload : Bytes} (hle : payload.length ≤ terms.blockSize.toNat) :
    (Packet.data block payload).encode.length ≤ Network.maxDatagram := by
  have hb := h.blockSize.2
  rw [Packet.length_data]
  show payload.length + 4 ≤ 65507
  omega

/-! ## The program -/

namespace Program

open CommandLine Server

end Program

end Tftp
