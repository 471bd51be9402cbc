import Tftp.Packet.Parse

/-!
# Option lists

The options of a datagram are pairs of a name and a value, each of them a text that ends in a NUL.
`OptionList s pairs` says that the bytes `s` are these pairs and nothing else, and
`Options.StatedBy pairs` what the pairs say: an option that is negotiated occurs at most once, in any
letter case, with a number that is not too large for it; any other name says nothing.

    bytes ──OptionList──▶ pairs ──StatedBy──▶ options

`Options.parse_eq_ok_iff` says that the parser accepts exactly that. Where it fails, it either cannot
cut the bytes into pairs, or it has met a pair that may not follow the ones before it
(`Options.blamesOption_iff`).
-/

namespace Tftp

/-! ## Pairs -/

/-- The pairs of names and values that the options of a datagram consist of. -/
inductive OptionList : Bytes → List (Bytes × Bytes) → Prop
  | nil : OptionList [] []
  | cons {name value rest : Bytes} {pairs : List (Bytes × Bytes)} : name ≠ [] → 0 ∉ name →
      0 ∉ value → OptionList rest pairs →
      OptionList (terminated name ++ terminated value ++ rest) ((name, value) :: pairs)

theorem splitNul_terminated {text : Bytes} (h : 0 ∉ text) (rest : Bytes) :
    splitNul (terminated text ++ rest) = some (text, rest) :=
  splitNul_eq_some_iff.2 ⟨h, by simp [terminated]⟩

theorem eq_terminated_of_splitNul {s text rest : Bytes} (h : splitNul s = some (text, rest)) :
    0 ∉ text ∧ s = terminated text ++ rest := by
  obtain ⟨hn, rfl⟩ := splitNul_eq_some_iff.1 h
  exact ⟨hn, by simp [terminated]⟩

/-! ## The options that are negotiated -/

namespace OptionName

/-- The largest value of an option. -/
def limit : OptionName → Nat
  | blockSize => 65535
  | timeout => 255
  | transferSize => 18446744073709551615

/-- A value that an option may have: a number, leading zeros allowed, that is not too large. -/
def Admits (name : OptionName) (value : Bytes) : Prop :=
  Decimal.isNumber value = true ∧ Decimal.read value ≤ name.limit

instance (name : OptionName) (value : Bytes) : Decidable (name.Admits value) :=
  inferInstanceAs (Decidable (_ ∧ _))

/-- The values that pairs give to an option. Letter case does not matter. -/
def valuesIn (name : OptionName) (pairs : List (Bytes × Bytes)) : List Bytes :=
  (pairs.filter fun pair => lower pair.1 = name.text).map (·.2)

theorem text_inj {a b : OptionName} (h : a.text = b.text) : a = b := by
  revert h
  cases a <;> cases b <;> decide

variable {a b : OptionName} {name value : Bytes} {pairs : List (Bytes × Bytes)}

theorem valuesIn_cons_of_eq (h : lower name = a.text) :
    a.valuesIn ((name, value) :: pairs) = value :: a.valuesIn pairs := by
  simp [valuesIn, h]

theorem valuesIn_cons_of_ne (h : lower name ≠ a.text) :
    a.valuesIn ((name, value) :: pairs) = a.valuesIn pairs := by
  simp [valuesIn, h]

end OptionName

namespace Options

/-- The value of an option as a number. -/
def value? (o : Options) : OptionName → Option Nat
  | .blockSize => o.blockSize.map (·.toNat)
  | .timeout => o.timeout.map (·.toNat)
  | .transferSize => o.transferSize.map (·.toNat)

def set (o : Options) (name : OptionName) (n : Nat) : Options :=
  match name with
  | .blockSize => { o with blockSize := some (UInt16.ofNat n) }
  | .timeout => { o with timeout := some (UInt8.ofNat n) }
  | .transferSize => { o with transferSize := some (UInt64.ofNat n) }

theorem value?_le {o : Options} {name : OptionName} {n : Nat} (h : o.value? name = some n) :
    n ≤ name.limit := by
  cases name <;> obtain ⟨m, -, rfl⟩ := Option.map_eq_some_iff.1 h
  · exact Nat.le_of_lt_succ m.toNat_lt
  · exact Nat.le_of_lt_succ m.toNat_lt
  · exact Nat.le_of_lt_succ m.toNat_lt

/-- Options are told apart by their values. -/
theorem ext_value? {o o' : Options} (h : ∀ name, o.value? name = o'.value? name) : o = o' := by
  have hb := h .blockSize
  have ht := h .timeout
  have hs := h .transferSize
  obtain ⟨b, t, s⟩ := o
  obtain ⟨b', t', s'⟩ := o'
  simp only [value?] at hb ht hs
  rw [Option.map_inj_right (fun _ _ => UInt16.toNat_inj.1) |>.1 hb,
    Option.map_inj_right (fun _ _ => UInt8.toNat_inj.1) |>.1 ht,
    Option.map_inj_right (fun _ _ => UInt64.toNat_inj.1) |>.1 hs]

theorem value?_set_self (o : Options) {name : OptionName} {n : Nat} (h : n ≤ name.limit) :
    (o.set name n).value? name = some n := by
  cases name
  · exact congrArg some (UInt16.toNat_ofNat_of_lt (Nat.lt_succ_of_le h))
  · exact congrArg some (UInt8.toNat_ofNat_of_lt (Nat.lt_succ_of_le h))
  · exact congrArg some (UInt64.toNat_ofNat_of_lt (Nat.lt_succ_of_le h))

theorem value?_set_of_ne (o : Options) {name other : OptionName} (n : Nat) (h : other ≠ name) :
    (o.set name n).value? other = o.value? other := by
  cases name <;> cases other <;> first | rfl | exact absurd rfl h

@[simp] theorem value?_empty (name : OptionName) : ({} : Options).value? name = none := by
  cases name <;> rfl

/-- What pairs say, read in any order. -/
def StatedBy (pairs : List (Bytes × Bytes)) (o : Options) : Prop :=
  ∀ name : OptionName, match name.valuesIn pairs with
    | [] => o.value? name = none
    | [value] => name.Admits value ∧ o.value? name = some (Decimal.read value)
    | _ => False

/-! ## Taking pairs into account one by one -/

/-- Takes pairs into account from left to right. -/
def addAll (o : Options) (pairs : List (Bytes × Bytes)) : Except Malformed Options :=
  pairs.foldlM (fun o pair => o.add (lower pair.1) pair.2) o

theorem addAll_cons (o : Options) (name value : Bytes) (pairs : List (Bytes × Bytes)) :
    o.addAll ((name, value) :: pairs) = o.add (lower name) value >>= fun o => o.addAll pairs :=
  List.foldlM_cons ..

theorem add_text (o : Options) (name : OptionName) (value : Bytes) :
    o.add name.text value =
      if (o.value? name).isSome then .error .repeatedOption
      else (number name name.limit value).map (o.set name) := by
  cases name <;>
    simp only [add, OptionName.text, value?, Option.isSome_map, if_true,
      show timeoutName ≠ blockSizeName by decide, show transferSizeName ≠ blockSizeName by decide,
      show transferSizeName ≠ timeoutName by decide, if_false] <;>
    split <;> rfl

theorem add_unknown (o : Options) {name : Bytes} (value : Bytes)
    (h : ∀ known : OptionName, name ≠ known.text) : o.add name value = .ok o := by
  have hb : name ≠ blockSizeName := h .blockSize
  have ht : name ≠ timeoutName := h .timeout
  have hs : name ≠ transferSizeName := h .transferSize
  simp only [add, hb, ht, hs, if_false]
  rfl

theorem number_of_admits {name : OptionName} {value : Bytes} (h : name.Admits value) :
    number name name.limit value = .ok (Decimal.read value) := by
  simp only [number, h.1, h.2, if_true]
  rfl

theorem number_of_not_admits {name : OptionName} {value : Bytes} (h : ¬ name.Admits value) :
    ∃ m, number name name.limit value = .error m ∧ m.isOption = true := by
  unfold number
  split
  · exact ⟨_, rfl, rfl⟩
  next hd =>
    rw [if_neg fun hr => h ⟨by simpa using hd, hr⟩]
    exact ⟨_, rfl, rfl⟩

/-- A pair can be taken into account unless it repeats an option or its value is no good. -/
theorem add_text_eq_ok_iff {o o' : Options} {name : OptionName} {value : Bytes} :
    o.add name.text value = .ok o' ↔
      o.value? name = none ∧ name.Admits value ∧ o' = o.set name (Decimal.read value) := by
  rw [add_text]
  cases hv : o.value? name with
  | some n => simp
  | none =>
    by_cases ha : name.Admits value
    · simp [number_of_admits ha, ha, Except.map, eq_comm]
    · obtain ⟨m, hm, -⟩ := number_of_not_admits ha
      simp [hm, ha, Except.map]

/-- A pair that cannot be taken into account is an option that is given wrongly. -/
theorem add_eq_error {o : Options} {name value : Bytes} {m : Malformed}
    (h : o.add name value = .error m) :
    m.isOption = true ∧ ∃ known : OptionName, name = known.text ∧
      (o.value? known ≠ none ∨ ¬ known.Admits value) := by
  by_cases hk : ∃ known : OptionName, name = known.text
  · obtain ⟨known, rfl⟩ := hk
    rw [add_text] at h
    cases hv : o.value? known with
    | some n =>
      rw [hv] at h
      cases h
      exact ⟨rfl, known, rfl, .inl (by simp [hv])⟩
    | none =>
      by_cases ha : known.Admits value
      · simp [hv, number_of_admits ha, Except.map] at h
      · obtain ⟨m', hm, ho⟩ := number_of_not_admits ha
        simp only [hv, hm, Except.map, Option.isSome_none, Bool.false_eq_true, if_false] at h
        cases h
        exact ⟨ho, known, rfl, .inr ha⟩
  · rw [add_unknown o value fun known hn => hk ⟨known, hn⟩] at h
    cases h

/-- What pairs say on top of the options that are known already. -/
def Extends (o : Options) (pairs : List (Bytes × Bytes)) (o' : Options) : Prop :=
  ∀ name : OptionName, match name.valuesIn pairs with
    | [] => o'.value? name = o.value? name
    | [value] => o.value? name = none ∧ name.Admits value ∧
        o'.value? name = some (Decimal.read value)
    | _ => False

theorem extends_nil {o o' : Options} : Extends o [] o' ↔ o' = o :=
  ⟨ext_value?, fun h _ => congrArg (value? · _) h⟩

theorem extends_cons_unknown {o o' : Options} {name value : Bytes}
    {pairs : List (Bytes × Bytes)} (h : ∀ known : OptionName, lower name ≠ known.text) :
    Extends o ((name, value) :: pairs) o' ↔ Extends o pairs o' := by
  simp only [Extends, OptionName.valuesIn_cons_of_ne (h _)]

theorem extends_cons_text {o o' : Options} {known : OptionName} {name value : Bytes}
    {pairs : List (Bytes × Bytes)} (h : lower name = known.text) :
    Extends o ((name, value) :: pairs) o' ↔ o.value? known = none ∧ known.Admits value ∧
      Extends (o.set known (Decimal.read value)) pairs o' := by
  have other : ∀ k : OptionName, k ≠ known →
      k.valuesIn ((name, value) :: pairs) = k.valuesIn pairs := fun k hk =>
    OptionName.valuesIn_cons_of_ne fun hn => hk (OptionName.text_inj (hn.symm.trans h))
  -- What is said of the other options does not change, so only the known one is looked at.
  constructor
  · intro he
    have hk := he known
    rw [OptionName.valuesIn_cons_of_eq h] at hk
    cases hv : known.valuesIn pairs with
    | cons v vs =>
      rw [hv] at hk
      exact hk.elim
    | nil =>
      rw [hv] at hk
      obtain ⟨ho, ha, ho'⟩ := hk
      refine ⟨ho, ha, fun k => ?_⟩
      by_cases hkk : k = known
      · subst hkk
        rw [hv, ho', value?_set_self o ha.2]
      · have := he k
        rw [other k hkk] at this
        rwa [value?_set_of_ne o _ hkk]
  · rintro ⟨ho, ha, he⟩ k
    by_cases hkk : k = known
    · subst hkk
      have hk := he k
      rw [value?_set_self o ha.2] at hk
      rw [OptionName.valuesIn_cons_of_eq h]
      cases hv : k.valuesIn pairs with
      | nil =>
        rw [hv] at hk
        exact ⟨ho, ha, hk⟩
      | cons v vs =>
        rw [hv] at hk
        cases vs with
        | nil => cases hk.1
        | cons _ _ => exact hk.elim
    · have := he k
      rw [other k hkk]
      rwa [value?_set_of_ne o _ hkk] at this

/-- Taking pairs into account one by one comes to what they say together. -/
theorem addAll_eq_ok_iff {o o' : Options} {pairs : List (Bytes × Bytes)} :
    o.addAll pairs = .ok o' ↔ Extends o pairs o' := by
  induction pairs generalizing o with
  | nil =>
    rw [extends_nil]
    exact ⟨fun h => (Except.ok.inj h).symm, fun h => congrArg Except.ok h.symm⟩
  | cons pair pairs ih =>
    obtain ⟨name, value⟩ := pair
    rw [addAll_cons]
    -- A name that is not known has no say; one that is known may be refused.
    by_cases hk : ∃ known : OptionName, lower name = known.text
    · obtain ⟨known, hk⟩ := hk
      rw [extends_cons_text hk, hk]
      cases ha : o.add known.text value with
      | error m =>
        obtain ⟨-, k, hkk, hbad⟩ := add_eq_error ha
        obtain rfl := OptionName.text_inj hkk
        constructor
        · intro h
          cases h
        · rintro ⟨ho, hv, -⟩
          exact (hbad.elim (· ho) (· hv)).elim
      | ok o₁ =>
        obtain ⟨ho, hv, rfl⟩ := add_text_eq_ok_iff.1 ha
        simp only [ho, hv, true_and]
        exact ih
    · have hk : ∀ known : OptionName, lower name ≠ known.text := fun known h => hk ⟨known, h⟩
      rw [extends_cons_unknown hk, add_unknown o value hk]
      exact ih

theorem extends_empty_iff {pairs : List (Bytes × Bytes)} {o : Options} :
    Extends {} pairs o ↔ StatedBy pairs o := by
  simp only [Extends, StatedBy, value?_empty, true_and]

/-- An option is known after some pairs exactly if one of them names it. -/
theorem StatedBy.value?_ne_none_iff {pairs : List (Bytes × Bytes)} {o : Options}
    (h : StatedBy pairs o) (name : OptionName) :
    o.value? name ≠ none ↔ name.valuesIn pairs ≠ [] := by
  have := h name
  split at this <;> simp_all

/-! ## Reading option lists -/

theorem parse_nil (o : Options) : parse o [] = .ok o := by
  rw [parse, if_pos rfl]

theorem parse_pair (o : Options) {name value : Bytes} (rest : Bytes) (hn : name ≠ [])
    (h0 : 0 ∉ name) (hv : 0 ∉ value) :
    parse o (terminated name ++ terminated value ++ rest) =
      o.add (lower name) value >>= fun o => parse o rest := by
  have h₁ : splitNul (terminated name ++ terminated value ++ rest) =
      some (name, terminated value ++ rest) := by
    rw [List.append_assoc]
    exact splitNul_terminated h0 _
  have h₂ := splitNul_terminated hv rest
  rw [parse, if_neg (by simp [terminated])]
  split
  next h => simp_all
  next name' s' h =>
    obtain ⟨rfl, rfl⟩ := Prod.mk.inj (Option.some.inj (h.symm.trans h₁))
    rw [if_neg hn]
    split
    next h => simp_all
    next value' rest' h =>
      obtain ⟨rfl, rfl⟩ := Prod.mk.inj (Option.some.inj (h.symm.trans h₂))
      cases o.add (lower name') value' <;> rfl

/-- Pairs at the front are taken into account before the rest is read. -/
theorem parse_append {s : Bytes} {pairs : List (Bytes × Bytes)} (h : OptionList s pairs)
    (o : Options) (rest : Bytes) :
    parse o (s ++ rest) = o.addAll pairs >>= fun o => parse o rest := by
  induction h generalizing o with
  | nil => rfl
  | @cons name value t pairs hn h0 hv _ ih =>
    rw [List.append_assoc, parse_pair o _ hn h0 hv, addAll_cons, bind_assoc]
    exact bind_congr ih

/-- A list of pairs that may be followed by one more only if that one is no good: it repeats an
option, or its value is not admitted. -/
structure Refused (o : Options) (before name value : Bytes) : Prop where
  name_ne_nil : name ≠ []
  name_ends : 0 ∉ name
  value_ends : 0 ∉ value
  pairs : ∃ pairs o', OptionList before pairs ∧ o.addAll pairs = .ok o' ∧
    ∃ m, o'.add (lower name) value = .error m

/-- What reading options comes to: they are pairs that can all be taken into account, or there is a
pair which cannot, or a pair is not complete. -/
inductive Reading (o : Options) (s : Bytes) : Except Malformed Options → Prop
  | stated (pairs : List (Bytes × Bytes)) (o' : Options) : OptionList s pairs →
      o.addAll pairs = .ok o' → Reading o s (.ok o')
  | refused (before name value rest : Bytes) (m : Malformed) :
      s = before ++ (terminated name ++ terminated value ++ rest) → Refused o before name value →
      m.isOption = true → Reading o s (.error m)
  | incomplete (m : Malformed) : m.isOption = false → Reading o s (.error m)

/-- A first pair that can be taken into account is put in front of those that follow it. -/
theorem Reading.cons {o o₁ : Options} {name value rest : Bytes} {result : Except Malformed Options}
    (h : Reading o₁ rest result) (hn : name ≠ []) (h0 : 0 ∉ name) (hv : 0 ∉ value)
    (ha : o.add (lower name) value = .ok o₁) :
    Reading o (terminated name ++ terminated value ++ rest) result := by
  have hadd (pairs : List (Bytes × Bytes)) :
      o.addAll ((name, value) :: pairs) = o₁.addAll pairs := by
    rw [addAll_cons, ha]
    rfl
  cases h with
  | stated pairs o' hl hall =>
    exact .stated ((name, value) :: pairs) o' (.cons hn h0 hv hl) ((hadd pairs).trans hall)
  | refused before name' value' rest' m hs hr ho =>
    obtain ⟨pairs, o', hl, hall, hm⟩ := hr.pairs
    refine .refused (terminated name ++ terminated value ++ before) name' value' rest' m ?_ ?_ ho
    · rw [hs]
      simp
    · exact { hr with
        pairs := ⟨(name, value) :: pairs, o', .cons hn h0 hv hl, (hadd pairs).trans hall, hm⟩ }
  | incomplete m hm => exact .incomplete m hm

theorem reading_parse (o : Options) (s : Bytes) : Reading o s (parse o s) := by
  -- As the parser goes: the end, three incomplete pairs, one that is refused and one that is taken.
  induction o, s using parse.induct with
  | case1 o =>
    rw [parse_nil]
    exact .stated [] o .nil rfl
  | case2 o s hs hn =>
    have hp : parse o s = .error .badOptionName := by
      rw [parse, if_neg hs]
      split <;> simp_all
    exact hp ▸ .incomplete _ rfl
  | case3 o s hs rest hn =>
    have hp : parse o s = .error .badOptionName := by
      rw [parse, if_neg hs]
      split <;> simp_all
    exact hp ▸ .incomplete _ rfl
  | case4 o s hs name s' hn hne hv =>
    have hp : parse o s = .error (.missingValue (lower name)) := by
      rw [parse, if_neg hs]
      split
      next h => simp_all
      next name' rest h =>
        obtain ⟨rfl, rfl⟩ := Prod.mk.inj (Option.some.inj (h.symm.trans hn))
        rw [if_neg hne]
        split <;> simp_all
    exact hp ▸ .incomplete _ rfl
  | case5 o s hs name s' hn hne value rest hv m ha =>
    obtain ⟨h0, rfl⟩ := eq_terminated_of_splitNul hn
    obtain ⟨hv0, rfl⟩ := eq_terminated_of_splitNul hv
    rw [← List.append_assoc, parse_pair o rest hne h0 hv0, ha]
    exact .refused [] name value rest m rfl ⟨hne, h0, hv0, [], o, .nil, rfl, m, ha⟩
      (add_eq_error ha).1
  | case6 o s hs name s' hn hne value rest hv o₁ ha _ _ ih =>
    obtain ⟨h0, rfl⟩ := eq_terminated_of_splitNul hn
    obtain ⟨hv0, rfl⟩ := eq_terminated_of_splitNul hv
    rw [← List.append_assoc, parse_pair o rest hne h0 hv0, ha]
    exact ih.cons hne h0 hv0 ha

/-- **The options that are read are those that the pairs state.** -/
theorem parse_eq_ok_iff {s : Bytes} {o : Options} :
    parse {} s = .ok o ↔ ∃ pairs, OptionList s pairs ∧ StatedBy pairs o := by
  simp only [← extends_empty_iff, ← addAll_eq_ok_iff]
  constructor
  · intro h
    have hr := reading_parse {} s
    rw [h] at hr
    cases hr with
    | stated pairs _ hl hall => exact ⟨pairs, hl, hall⟩
  · rintro ⟨pairs, hl, hall⟩
    have hp := parse_append hl {} []
    rw [List.append_nil, hall] at hp
    exact hp.trans (parse_nil o)

end Options

/-- Options of which the first fault is in a pair that is complete: it is one of the options that are
negotiated, and it has occurred before or has a value that is not admitted. -/
inductive BadOption : Bytes → Prop
  | mk {before name value : Bytes} {pairs : List (Bytes × Bytes)} {o : Options}
      (known : OptionName) (rest : Bytes) : OptionList before pairs → o.StatedBy pairs →
      name ≠ [] → 0 ∉ name → 0 ∉ value → lower name = known.text →
      (known.valuesIn pairs ≠ [] ∨ ¬ known.Admits value) →
      BadOption (before ++ (terminated name ++ terminated value ++ rest))

/-- A result that is a fault in an option. -/
def BlamesOption {α : Type} (result : Except Malformed α) : Prop :=
  ∃ m, result = .error m ∧ m.isOption = true

section

variable {α β : Type}

@[simp] theorem not_blamesOption_ok (a : α) : ¬ BlamesOption (.ok a) := nofun

@[simp] theorem blamesOption_error_iff {m : Malformed} :
    BlamesOption (.error m : Except Malformed α) ↔ m.isOption = true := by
  simp [BlamesOption]

@[simp] theorem blamesOption_map_iff {f : α → β} {result : Except Malformed α} :
    BlamesOption (result.map f) ↔ BlamesOption result := by
  cases result <;> simp [Except.map]

end

/-- **An option is blamed exactly if the first fault is in one.** -/
theorem Options.blamesOption_iff {s : Bytes} : BlamesOption (Options.parse {} s) ↔ BadOption s := by
  constructor
  · rintro ⟨m, h, ho⟩
    have hr := reading_parse {} s
    rw [h] at hr
    cases hr with
    | refused before name value rest m hs hr _ =>
      obtain ⟨pairs, o', hl, hall, m', hm⟩ := hr.pairs
      have stated := extends_empty_iff.1 (addAll_eq_ok_iff.1 hall)
      obtain ⟨-, known, hk, hbad⟩ := add_eq_error hm
      rw [hs]
      refine .mk known rest hl stated hr.name_ne_nil hr.name_ends hr.value_ends hk ?_
      exact hbad.imp_left (stated.value?_ne_none_iff known).1
    | incomplete m hm => simp_all
  · rintro ⟨known, rest, hl, stated, hn, h0, hv, hk, hbad⟩
    have hall := addAll_eq_ok_iff.2 (extends_empty_iff.2 stated)
    rw [parse_append hl, hall]
    change BlamesOption (parse _ _)
    rw [parse_pair _ rest hn h0 hv, hk]
    cases ha : Options.add _ known.text _ with
    | error m => exact ⟨m, rfl, (add_eq_error ha).1⟩
    | ok o' =>
      obtain ⟨hnone, hadm, -⟩ := add_text_eq_ok_iff.1 ha
      exact (hbad.elim (fun hv => (stated.value?_ne_none_iff known).2 hv hnone)
        (fun h => h hadm)).elim

end Tftp
