import Tftp.Address

/-!
# Clients with a transfer in progress

The registry is a finite set of addresses: a client is entered when its request is accepted and
taken out when its transfer has ended, and while it is in, its further requests are not accepted.
-/

namespace Tftp

/-- A set of addresses. -/
structure Registry where
  peers : List Address
  nodup : peers.Nodup

namespace Registry

def empty : Registry where
  peers := []
  nodup := List.nodup_nil

instance : EmptyCollection Registry := ⟨empty⟩

/-- Whether an address is in the set. -/
def contains (r : Registry) (addr : Address) : Bool := r.peers.contains addr

/-- The number of addresses in the set. -/
def size (r : Registry) : Nat := r.peers.length

/-- Enters an address; there is no new set if it was in already. -/
def insert? (r : Registry) (addr : Address) : Option Registry :=
  if h : addr ∈ r.peers then none
  else some { peers := addr :: r.peers, nodup := List.nodup_cons.2 ⟨h, r.nodup⟩ }

/-- Takes an address out, if it is there. -/
def erase (r : Registry) (addr : Address) : Registry :=
  { peers := r.peers.erase addr, nodup := r.nodup.erase addr }

theorem contains_eq_true_iff (r : Registry) (addr : Address) :
    r.contains addr = true ↔ addr ∈ r.peers := by
  simp [contains]

/-- An address can be entered unless it is in. -/
theorem insert?_eq_none_iff (r : Registry) (addr : Address) :
    r.insert? addr = none ↔ r.contains addr = true := by
  unfold insert?
  split <;> simp_all [contains]

theorem insert?_eq_some_iff {r s : Registry} {addr : Address} :
    r.insert? addr = some s ↔ addr ∉ r.peers ∧ s.peers = addr :: r.peers := by
  obtain ⟨peers, nodup⟩ := s
  unfold insert?
  split
  · simp_all
  · simp_all [eq_comm]

/-- An address that is entered and taken out again has left no trace. -/
theorem erase_insert {r s : Registry} {addr : Address} (h : r.insert? addr = some s) :
    s.erase addr = r := by
  obtain ⟨-, hs⟩ := insert?_eq_some_iff.1 h
  simp [erase, hs]

/-- Entering an address enters that address and no other. -/
theorem contains_insert {r s : Registry} {addr : Address} (h : r.insert? addr = some s)
    (a : Address) : s.contains a = (a == addr || r.contains a) := by
  unfold insert? at h
  split at h
  · simp at h
  · obtain rfl := Option.some.inj h
    simp [contains, Bool.beq_eq_decide_eq]

/-- Taking an address out takes out that address and no other. -/
theorem contains_erase (r : Registry) (addr a : Address) :
    (r.erase addr).contains a = (a != addr && r.contains a) := by
  simp only [contains, erase]
  rw [Bool.eq_iff_iff]
  simp [r.nodup.mem_erase_iff]

end Registry

end Tftp
