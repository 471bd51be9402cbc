import Tftp.Proofs.Blocks

/-!
# Links

A link holds the datagrams that are on their way to one end. What it may do with them is what
distinguishes links: `Link.unordered` loses, repeats, delays and reorders whatever it likes, and
`Link.inOrder` loses and repeats, but keeps the order.

Datagrams are numbered by the one who sends them, and only 16 bits of a number arrive. A link is
`Unambiguous` if this is enough, provided that nobody sends a number before the one below it has
arrived: for an unordered link up to number 65535, and for one that keeps the order without any
bound, as only two numbers are on the way at a time.
-/

namespace Tftp

/-- What may happen to the datagrams on the way to one end. -/
structure Link where
  Delivers : List Bytes → Bytes → List Bytes → Prop
  Drifts : List Bytes → List Bytes → Prop

namespace Link

/-- Whatever has been sent may arrive at any time, any number of times, or never. -/
def unordered : Link where
  Delivers queue x rest := x ∈ queue ∧ rest = queue
  Drifts _ _ := False

/-- The first datagram on the way arrives. Any of them may be lost, or be repeated in its place. -/
def inOrder : Link where
  Delivers queue x rest := queue = x :: rest
  Drifts queue queue' := ∃ a x b, queue = a ++ x :: b ∧ (queue' = a ++ b ∨ queue' = a ++ x :: x :: b)

/-- What is known about the datagrams on the way: `Holds Numbers low high` says that they have numbers
up to `high`, and on a link that keeps the order, also from `low` on. What arrives while the next
number is waited for has this number if it has its 16 bits, and then nothing below it will follow. -/
structure Unambiguous (link : Link) (limit : Nat) where
  Holds : (Nat → Bytes → Prop) → Nat → Nat → List Bytes → Prop
  nil : ∀ {Numbers low high}, Holds Numbers low high []
  widen : ∀ {Numbers low high high' queue}, Holds Numbers low high queue → high ≤ high' →
    Holds Numbers low high' queue
  send : ∀ {Numbers : Nat → Bytes → Prop} {low high queue x}, Holds Numbers low high queue →
    low ≤ high → Numbers high x → Holds Numbers low high (queue ++ [x])
  drift : ∀ {Numbers low high queue queue'}, Holds Numbers low high queue → link.Drifts queue queue' →
    Holds Numbers low high queue'
  deliver : ∀ {Numbers low high queue x rest}, Holds Numbers low high queue → link.Delivers queue x rest →
    Holds Numbers low high rest ∧ ∃ j, j ≤ high ∧ Numbers j x ∧
      ∀ next, low ≤ next → next ≤ low + 1 → high ≤ low + 1 → next ≤ limit → high ≤ limit →
        UInt16.ofNat j = UInt16.ofNat next → j = next ∧ Holds Numbers next high rest

theorem Unambiguous.sendAll {link : Link} {limit : Nat} (u : link.Unambiguous limit)
    {Numbers : Nat → Bytes → Prop} {low high high' : Nat} {queue : List Bytes} {x : Bytes}
    (h : u.Holds Numbers low high queue) (hle : high ≤ high') (hl : low ≤ high')
    (hx : Numbers high' x) (k : Nat) :
    u.Holds Numbers low high' (queue ++ List.replicate k x) := by
  induction k with
  | zero =>
      rw [List.replicate_zero, List.append_nil]
      exact u.widen h hle
  | succ k ih =>
      rw [List.replicate_succ', ← List.append_assoc]
      exact u.send ih hl hx

/-- Up to number 65535 the 16 bits are the number. -/
def unorderedUnambiguous {limit : Nat} (h : limit ≤ 65535) : unordered.Unambiguous limit where
  Holds Numbers _ high queue := ∀ x ∈ queue, ∃ j, j ≤ high ∧ Numbers j x
  nil := by
    intro Numbers low high x hx
    cases hx
  widen := by
    intro Numbers low high high' queue holds hle x hx
    obtain ⟨j, hj, his⟩ := holds x hx
    exact ⟨j, Nat.le_trans hj hle, his⟩
  send := by
    intro Numbers low high queue x holds _ hx y hy
    rcases List.mem_append.mp hy with hy | hy
    · exact holds y hy
    · obtain rfl := List.mem_singleton.mp hy
      exact ⟨high, Nat.le_refl _, hx⟩
  drift := by
    intro Numbers low high queue queue' _ hd
    exact hd.elim
  deliver := by
    rintro Numbers low high queue x rest holds ⟨hx, rfl⟩
    obtain ⟨j, hj, his⟩ := holds x hx
    -- What has arrived may arrive again, so there is nothing to be said about what follows.
    refine ⟨holds, j, hj, his, fun next _ _ _ hnext hhigh heq => ⟨?_, holds⟩⟩
    exact ofNat_inj_of_lt (by omega) (by omega) heq

def Ascending (Numbers : Nat → Bytes → Prop) (low high : Nat) : List Bytes → Prop
  | [] => True
  | x :: queue => ∃ j, low ≤ j ∧ j ≤ high ∧ Numbers j x ∧ Ascending Numbers j high queue

theorem Ascending.mono {Numbers : Nat → Bytes → Prop} {low low' high : Nat} {queue : List Bytes}
    (hle : low' ≤ low) (h : Ascending Numbers low high queue) : Ascending Numbers low' high queue := by
  cases queue with
  | nil => trivial
  | cons x queue =>
      obtain ⟨j, hj, hj', his, h⟩ := h
      exact ⟨j, Nat.le_trans hle hj, hj', his, h⟩

theorem Ascending.widen {Numbers : Nat → Bytes → Prop} {low high high' : Nat}
    {queue : List Bytes} (h : Ascending Numbers low high queue) (hle : high ≤ high') :
    Ascending Numbers low high' queue := by
  induction queue generalizing low with
  | nil => trivial
  | cons x queue ih =>
      obtain ⟨j, hj, hj', his, h⟩ := h
      exact ⟨j, hj, Nat.le_trans hj' hle, his, ih h⟩

theorem Ascending.append {Numbers : Nat → Bytes → Prop} {low high : Nat} {queue : List Bytes}
    {x : Bytes} (h : Ascending Numbers low high queue) (hl : low ≤ high) (hx : Numbers high x) :
    Ascending Numbers low high (queue ++ [x]) := by
  induction queue generalizing low with
  | nil => exact ⟨high, hl, Nat.le_refl _, hx, trivial⟩
  | cons y queue ih =>
      obtain ⟨j, hj, hj', his, h⟩ := h
      exact ⟨j, hj, hj', his, ih h hj'⟩

/-- Neither a loss nor a repetition in place brings the numbers out of order. -/
theorem Ascending.drift {Numbers : Nat → Bytes → Prop} {low high : Nat} {a b : List Bytes} {x : Bytes}
    (h : Ascending Numbers low high (a ++ x :: b)) :
    Ascending Numbers low high (a ++ b) ∧ Ascending Numbers low high (a ++ x :: x :: b) := by
  induction a generalizing low with
  | nil =>
      obtain ⟨j, hj, hj', his, h⟩ := h
      exact ⟨h.mono hj, j, hj, hj', his, j, Nat.le_refl _, hj', his, h⟩
  | cons y a ih =>
      obtain ⟨j, hj, hj', his, h⟩ := h
      exact ⟨⟨j, hj, hj', his, (ih h).1⟩, j, hj, hj', his, (ih h).2⟩

/-- Where the order is kept, only two numbers are on the way at a time, and they differ in their 16
bits, however large they are. -/
def inOrderUnambiguous (limit : Nat) : inOrder.Unambiguous limit where
  Holds := Ascending
  nil := trivial
  widen holds hle := holds.widen hle
  send holds hl hx := holds.append hl hx
  drift := by
    rintro Numbers low high queue queue' holds ⟨a, x, b, rfl, rfl | rfl⟩
    · exact holds.drift.1
    · exact holds.drift.2
  deliver := by
    rintro Numbers low high queue x rest holds rfl
    obtain ⟨j, hj, hj', his, h⟩ := holds
    refine ⟨h.mono hj, j, hj', his, ?_⟩
    intro next hlow hnext hhigh _ _ heq
    -- Both lie between `low` and `low + 1`, so they differ by one at most.
    obtain rfl : j = next := by
      rcases Nat.lt_trichotomy j next with hlt | he | hlt
      · obtain rfl : next = j + 1 := by omega
        exact absurd heq (ofNat_ne_succ j)
      · exact he
      · obtain rfl : j = next + 1 := by omega
        exact absurd heq.symm (ofNat_ne_succ next)
    exact ⟨rfl, h⟩

end Link

end Tftp
