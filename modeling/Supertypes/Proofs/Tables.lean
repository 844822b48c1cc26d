import Mathlib.Data.List.Infix
import Mathlib.Data.List.Nodup
import Supertypes.Table.Lists
import Supertypes.Table.Sharded

/-!
# Tables only grow

A table is below another (`≤`) when the other goes on from where it stands. What has been handed
out keeps its meaning in every later table, and interning a value again answers the same and adds
nothing.

- `Table.get?_of_le` and `Table.find?_of_le`: addresses are good for ever.
- `Table.intern_cases`: what one step of interning does, with its three outcomes.
- `Table.intern_again`: interning once more, at any later time.
- `ListTable.get_of_le`, `ListTable.get_intern` and `ListTable.intern_again`: the same for lists.
- `Table.find?_of_get?` and `ListTable.Distinct.intern_get`: nothing is stored twice, so that
  what an address reads as leads back to it.
-/

namespace Supertypes

/-! ## Sharded tables -/

namespace Table

variable {α : Type}

/-- `t'` goes on from `t`. -/
instance : LE (Table α) where
  le t t' := t.entries <+: t'.entries

protected theorem le_refl (t : Table α) : t ≤ t :=
  List.prefix_rfl

protected theorem le_trans {a b c : Table α} (hab : a ≤ b) (hbc : b ≤ c) : a ≤ c :=
  List.IsPrefix.trans hab hbc

theorem entries_subset {t t' : Table α} (h : t ≤ t') : t.entries ⊆ t'.entries :=
  List.IsPrefix.subset h

variable [Digest α]

/-- Each shard grows at its end. -/
theorem shard_grows {t t' : Table α} (h : t ≤ t') (s : Fin shardCount) :
    t.shard s <+: t'.shard s :=
  List.IsPrefix.filter _ h

/-- What is stored keeps its address. -/
theorem get?_of_le {t t' : Table α} (h : t ≤ t') {a : Address} {x : α} (hx : t.get? a = some x) :
    t'.get? a = some x := by
  obtain ⟨rest, hrest⟩ := shard_grows h a.shard
  unfold get? at hx ⊢
  obtain ⟨hlt, -⟩ := List.getElem?_eq_some_iff.mp hx
  rw [← hrest, List.getElem?_append_left hlt, hx]

/-- Every value stands in the shard that its digest picks. -/
theorem mem_of_get? {t : Table α} {a : Address} {x : α} (hx : t.get? a = some x) :
    x ∈ t.entries :=
  List.mem_of_mem_filter (List.mem_of_getElem? hx)

/-- No shard has outgrown the slots up to `maxSlot`. -/
def Bounded (t : Table α) (maxSlot : Nat) : Prop :=
  ∀ s, (t.shard s).length ≤ maxSlot + 1

variable [DecidableEq α] {t t' : Table α} {maxSlot : Nat} {x : α} {a : Address}

/-- The address of a value is in its shard, at the place where the value occurs first. -/
theorem find?_eq_some_iff :
    t.find? x = some a ↔
      a.shard = shardOf x ∧ (t.shard (shardOf x)).findIdx? (· = x) = some a.slot := by
  unfold find?
  rw [Option.map_eq_some_iff]
  constructor
  · rintro ⟨slot, hslot, rfl⟩
    exact ⟨rfl, hslot⟩
  · rintro ⟨hshard, hslot⟩
    exact ⟨a.slot, hslot, by rw [← hshard]⟩

/-- A value that is found is found at the same address later on. -/
theorem find?_of_le (h : t ≤ t') (hx : t.find? x = some a) : t'.find? x = some a := by
  rw [find?_eq_some_iff] at hx ⊢
  obtain ⟨hshard, hslot⟩ := hx
  refine ⟨hshard, ?_⟩
  -- the value is found before the search comes to what has been added
  obtain ⟨rest, hrest⟩ := shard_grows h (shardOf x)
  rw [← hrest, List.findIdx?_append, hslot]
  rfl

/-- The address of a value leads back to it. -/
theorem get?_of_find? (hx : t.find? x = some a) : t.get? a = some x := by
  rw [find?_eq_some_iff] at hx
  obtain ⟨hshard, hslot⟩ := hx
  obtain ⟨hlt, heq, -⟩ := List.findIdx?_eq_some_iff_getElem.mp hslot
  unfold get?
  rw [hshard, List.getElem?_eq_getElem hlt]
  simpa using heq

/-- In a bounded table slots stay within the bound. -/
theorem slot_le_of_find? (hb : t.Bounded maxSlot) (hx : t.find? x = some a) :
    a.slot ≤ maxSlot := by
  have hget := get?_of_find? hx
  obtain ⟨hlt, -⟩ := List.getElem?_eq_some_iff.mp hget
  have := hb a.shard
  omega

/-- The three things that a step of interning may do: the value is there already, or it is new
and there is no slot for it, or it is new and gets the next slot of its shard. -/
theorem intern_cases (maxSlot : Nat) (t : Table α) (x : α) :
    (∃ a, t.find? x = some a ∧ t.intern maxSlot x = (some a, t)) ∨
      (t.find? x = none ∧ t.Full maxSlot x ∧ t.intern maxSlot x = (none, t)) ∨
      (t.find? x = none ∧ ¬ t.Full maxSlot x ∧ t.intern maxSlot x =
        (some ⟨shardOf x, (t.shard (shardOf x)).length⟩, { entries := t.entries ++ [x] })) := by
  cases hfind : t.find? x with
  | some a => exact .inl ⟨a, rfl, by simp only [intern, hfind]⟩
  | none =>
    by_cases hfull : t.Full maxSlot x
    · exact .inr (.inl ⟨rfl, hfull, by simp only [intern, hfind, if_pos hfull]⟩)
    · exact .inr (.inr ⟨rfl, hfull, by simp only [intern, hfind, if_neg hfull]⟩)

/-- Interning adds to the table and changes nothing else. -/
theorem le_intern (maxSlot : Nat) (t : Table α) (x : α) : t ≤ (t.intern maxSlot x).2 := by
  rcases intern_cases maxSlot t x with ⟨a, -, heq⟩ | ⟨-, -, heq⟩ | ⟨-, -, heq⟩
  · rw [heq]
    exact t.le_refl
  · rw [heq]
    exact t.le_refl
  · rw [heq]
    exact List.prefix_append _ _

omit [DecidableEq α] in
/-- The shard of a new value is one longer afterwards, the others are as before. -/
theorem shard_append (t : Table α) (x : α) (s : Fin shardCount) :
    ({ entries := t.entries ++ [x] } : Table α).shard s =
      t.shard s ++ if shardOf x = s then [x] else [] := by
  unfold shard
  rw [List.filter_append]
  by_cases h : shardOf x = s <;> simp [h]

/-- Interning keeps a table bounded. -/
theorem Bounded.intern (hb : t.Bounded maxSlot) (x : α) :
    (t.intern maxSlot x).2.Bounded maxSlot := by
  rcases intern_cases maxSlot t x with ⟨a, -, heq⟩ | ⟨-, -, heq⟩ | ⟨-, hfull, heq⟩
  · rw [heq]
    exact hb
  · rw [heq]
    exact hb
  · -- only a shard that was not full has grown
    intro s
    rw [heq, shard_append]
    by_cases hs : shardOf x = s
    · unfold Full at hfull
      rw [if_pos hs, List.length_append, List.length_singleton, ← hs]
      omega
    · rw [if_neg hs, List.append_nil]
      exact hb s

/-- Interning adds at most the value in question. -/
theorem mem_entries_intern {y : α} (h : y ∈ (t.intern maxSlot x).2.entries) :
    y ∈ t.entries ∨ y = x := by
  rcases intern_cases maxSlot t x with ⟨a, -, heq⟩ | ⟨-, -, heq⟩ | ⟨-, -, heq⟩
  · rw [heq] at h
    exact .inl h
  · rw [heq] at h
    exact .inl h
  · rw [heq] at h
    simpa using h

/-- An address that interning answers is the address of the value from then on. -/
theorem find?_intern (h : (t.intern maxSlot x).1 = some a) :
    (t.intern maxSlot x).2.find? x = some a := by
  rcases intern_cases maxSlot t x with ⟨b, hfind, heq⟩ | ⟨-, -, heq⟩ | ⟨hnew, -, heq⟩
  · rw [heq] at h ⊢
    exact h ▸ hfind
  · rw [heq] at h
    cases h
  · rw [heq] at h ⊢
    obtain rfl := Option.some.inj h
    -- the value is new, so the search goes through to the end
    rw [find?_eq_some_iff, shard_append, if_pos rfl, List.findIdx?_append]
    have hnone : (t.shard (shardOf x)).findIdx? (· = x) = none :=
      Option.map_eq_none_iff.mp hnew
    simp [hnone]

/-- Interning a value once more, at any later time, answers the same and adds nothing. -/
theorem intern_again (hb : t'.Bounded maxSlot) (h : (t.intern maxSlot x).2 ≤ t') :
    t'.intern maxSlot x = ((t.intern maxSlot x).1, t') := by
  cases haddr : (t.intern maxSlot x).1 with
  | some a =>
    have hfind : t'.find? x = some a := find?_of_le h (find?_intern haddr)
    simp only [intern, hfind]
  | none =>
    rcases intern_cases maxSlot t x with ⟨b, -, heq⟩ | ⟨hnew, hfull, heq⟩ | ⟨-, -, heq⟩
    · rw [heq] at haddr
      cases haddr
    · -- the shard was full, so nothing has been added to it since
      rw [heq] at h
      have hprefix : t.shard (shardOf x) <+: t'.shard (shardOf x) := shard_grows h (shardOf x)
      have hshard : t.shard (shardOf x) = t'.shard (shardOf x) := by
        refine hprefix.eq_of_length (Nat.le_antisymm hprefix.length_le ?_)
        have := hb (shardOf x)
        unfold Full at hfull
        omega
      unfold find? at hnew
      unfold Full at hfull
      rw [hshard] at hnew hfull
      have hnew' : t'.find? x = none := hnew
      have hfull' : t'.Full maxSlot x := hfull
      simp only [intern, hnew', if_pos hfull']
    · rw [heq] at haddr
      cases haddr

/-! ### No value twice -/

/-- What is in the table is found. -/
theorem find?_eq_none_iff : t.find? x = none ↔ x ∉ t.entries := by
  unfold find?
  rw [Option.map_eq_none_iff, List.findIdx?_eq_none_iff]
  constructor
  · intro hall hmem
    have hshard : x ∈ t.shard (shardOf x) := List.mem_filter.mpr ⟨hmem, by simp⟩
    simpa using hall x hshard
  · intro hnew y hy
    have hmem : y ∈ t.entries := List.mem_of_mem_filter hy
    have hne : y ≠ x := fun heq => hnew (heq ▸ hmem)
    simpa using hne

/-- Interning stores no value twice. -/
theorem nodup_intern (hnodup : t.entries.Nodup) (maxSlot : Nat) (x : α) :
    (t.intern maxSlot x).2.entries.Nodup := by
  rcases intern_cases maxSlot t x with ⟨a, -, heq⟩ | ⟨-, -, heq⟩ | ⟨hnew, -, heq⟩
  · rw [heq]
    exact hnodup
  · rw [heq]
    exact hnodup
  · -- only a value that is new is added
    have hnot : x ∉ t.entries := find?_eq_none_iff.mp hnew
    rw [heq]
    show (t.entries ++ [x]).Nodup
    rw [List.nodup_append]
    refine ⟨hnodup, List.nodup_singleton x, ?_⟩
    rintro y hy z hz rfl
    exact hnot (List.mem_singleton.mp hz ▸ hy)

/-- In a table without repetitions an address is the only one of its value. -/
theorem find?_of_get? (hnodup : t.entries.Nodup) (hx : t.get? a = some x) :
    t.find? x = some a := by
  have hmem : x ∈ t.shard a.shard := List.mem_of_getElem? hx
  have hshard : shardOf x = a.shard := by simpa using (List.mem_filter.mp hmem).2
  have hnodup' : (t.shard a.shard).Nodup := hnodup.filter _
  obtain ⟨hlt, heq⟩ := List.getElem?_eq_some_iff.mp hx
  rw [find?_eq_some_iff, hshard]
  refine ⟨rfl, List.findIdx?_eq_some_iff_getElem.mpr ⟨hlt, by simpa using heq, ?_⟩⟩
  -- an earlier place with the same value would be a repetition
  intro j hj
  have hne : (t.shard a.shard)[j] ≠ x := by
    intro hj'
    have := (List.Nodup.getElem_inj_iff hnodup').mp (hj'.trans heq.symm)
    omega
  simpa using hne

end Table

/-! ## List tables -/

namespace ListTable

variable {α : Type}

/-- `t'` goes on from `t`. -/
instance : LE (ListTable α) where
  le t t' := t.stored <+: t'.stored

protected theorem le_refl (t : ListTable α) : t ≤ t :=
  List.prefix_rfl

protected theorem le_trans {a b c : ListTable α} (hab : a ≤ b) (hbc : b ≤ c) : a ≤ c :=
  List.IsPrefix.trans hab hbc

/-- The position has been handed out. -/
def Issued (t : ListTable α) (position : Nat) : Prop :=
  position ≤ t.stored.length

theorem Issued.of_le {t t' : ListTable α} {position : Nat} (hp : t.Issued position) (h : t ≤ t') :
    t'.Issued position :=
  Nat.le_trans hp h.length_le

/-- A list keeps its position. -/
theorem get_of_le {t t' : ListTable α} (h : t ≤ t') {position : Nat} (hp : t.Issued position) :
    t'.get position = t.get position := by
  cases position with
  | zero => rfl
  | succ i =>
    have hlt : i < t.stored.length := hp
    have hlt' : i < t'.stored.length := Nat.lt_of_lt_of_le hlt h.length_le
    simp only [get, List.getElem?_eq_getElem hlt, List.getElem?_eq_getElem hlt']
    rw [h.getElem hlt]

/-- What a table reads is empty or one of its lists. -/
theorem get_eq_nil_or_mem (t : ListTable α) (position : Nat) :
    t.get position = [] ∨ t.get position ∈ t.stored := by
  cases position with
  | zero => exact .inl rfl
  | succ i =>
    cases h : t.stored[i]? with
    | none => exact .inl (by simp [get, h])
    | some xs => exact .inr (by simpa [get, h] using List.mem_of_getElem? h)

variable [DecidableEq α]

/-- The three things that a step of interning may do: the list is empty and needs no table, or it
is there already, or it is new and goes to the end. -/
theorem intern_cases (t : ListTable α) (xs : List α) :
    (xs = [] ∧ t.intern xs = (0, t)) ∨
      (∃ i, xs ≠ [] ∧ t.stored.findIdx? (· = xs) = some i ∧ t.intern xs = (i + 1, t)) ∨
      (xs ≠ [] ∧ t.stored.findIdx? (· = xs) = none ∧
        t.intern xs = (t.stored.length + 1, { stored := t.stored ++ [xs] })) := by
  by_cases hxs : xs = []
  · exact .inl ⟨hxs, by simp only [intern, if_pos hxs]⟩
  · cases hfind : t.stored.findIdx? (· = xs) with
    | some i => exact .inr (.inl ⟨i, hxs, rfl, by simp only [intern, if_neg hxs, hfind]⟩)
    | none => exact .inr (.inr ⟨hxs, rfl, by simp only [intern, if_neg hxs, hfind]⟩)

/-- Interning a list adds to the table and changes nothing else. -/
theorem le_intern (t : ListTable α) (xs : List α) : t ≤ (t.intern xs).2 := by
  rcases intern_cases t xs with ⟨-, heq⟩ | ⟨i, -, -, heq⟩ | ⟨-, -, heq⟩
  · rw [heq]
    exact t.le_refl
  · rw [heq]
    exact t.le_refl
  · rw [heq]
    exact List.prefix_append _ _

/-- The position that is answered has been issued. -/
theorem issued_intern (t : ListTable α) (xs : List α) :
    (t.intern xs).2.Issued (t.intern xs).1 := by
  rcases intern_cases t xs with ⟨-, heq⟩ | ⟨i, -, hfind, heq⟩ | ⟨-, -, heq⟩
  · rw [heq]
    exact Nat.zero_le _
  · rw [heq]
    obtain ⟨hlt, -⟩ := List.findIdx?_eq_some_iff_getElem.mp hfind
    exact hlt
  · rw [heq]
    simp [Issued]

/-- Interning adds at most the list in question. -/
theorem mem_stored_intern {t : ListTable α} {xs ys : List α} (h : ys ∈ (t.intern xs).2.stored) :
    ys ∈ t.stored ∨ ys = xs := by
  rcases intern_cases t xs with ⟨-, heq⟩ | ⟨i, -, -, heq⟩ | ⟨-, -, heq⟩
  · rw [heq] at h
    exact .inl h
  · rw [heq] at h
    exact .inl h
  · rw [heq] at h
    simpa using h

/-- The position of a list leads back to it. -/
theorem get_intern (t : ListTable α) (xs : List α) : (t.intern xs).2.get (t.intern xs).1 = xs := by
  rcases intern_cases t xs with ⟨hxs, heq⟩ | ⟨i, -, hfind, heq⟩ | ⟨-, -, heq⟩
  · rw [heq, hxs]
    rfl
  · rw [heq]
    obtain ⟨hlt, hget, -⟩ := List.findIdx?_eq_some_iff_getElem.mp hfind
    simpa [get, List.getElem?_eq_getElem hlt] using hget
  · rw [heq]
    simp [get]

/-- Interning a list once more, at any later time, answers the same and adds nothing. -/
theorem intern_again {t t' : ListTable α} {xs : List α} (h : (t.intern xs).2 ≤ t') :
    t'.intern xs = ((t.intern xs).1, t') := by
  rcases intern_cases t xs with ⟨hxs, heq⟩ | ⟨i, hxs, hfind, heq⟩ | ⟨hxs, hnew, heq⟩
  · simp only [intern, if_pos hxs]
  · rw [heq] at h ⊢
    obtain ⟨rest, hrest⟩ := h
    have hfind' : t'.stored.findIdx? (· = xs) = some i := by
      rw [← hrest, List.findIdx?_append, hfind]
      rfl
    simp only [intern, if_neg hxs, hfind']
  · rw [heq] at h ⊢
    obtain ⟨rest, hrest⟩ := h
    have hfind' : t'.stored.findIdx? (· = xs) = some t.stored.length := by
      rw [← hrest, List.append_assoc, List.findIdx?_append, hnew]
      simp [List.findIdx?_cons]
    simp only [intern, if_neg hxs, hfind']

/-! ### No list twice -/

omit [DecidableEq α] in
/-- No list is stored twice, and the empty list not at all. -/
def Distinct (t : ListTable α) : Prop :=
  t.stored.Nodup ∧ [] ∉ t.stored

/-- Interning stores no list twice. -/
theorem Distinct.intern {t : ListTable α} (ht : t.Distinct) (xs : List α) :
    (t.intern xs).2.Distinct := by
  rcases intern_cases t xs with ⟨-, heq⟩ | ⟨i, -, -, heq⟩ | ⟨hxs, hnew, heq⟩
  · rw [heq]
    exact ht
  · rw [heq]
    exact ht
  · -- only a list that is new and not empty is added
    have hnot : xs ∉ t.stored := by
      intro hmem
      simpa using (List.findIdx?_eq_none_iff.mp hnew) xs hmem
    rw [heq]
    constructor
    · show (t.stored ++ [xs]).Nodup
      rw [List.nodup_append]
      refine ⟨ht.1, List.nodup_singleton xs, ?_⟩
      rintro ys hys zs hzs rfl
      exact hnot (List.mem_singleton.mp hzs ▸ hys)
    · show [] ∉ t.stored ++ [xs]
      simp [ht.2, Ne.symm hxs]

/-- A position that has been handed out is the only one of its list. -/
theorem Distinct.intern_get {t : ListTable α} (ht : t.Distinct) {position : Nat}
    (hp : t.Issued position) : t.intern (t.get position) = (position, t) := by
  cases position with
  | zero => rfl
  | succ i =>
    have hlt : i < t.stored.length := hp
    have hget : t.get (i + 1) = t.stored[i] := by simp [get, List.getElem?_eq_getElem hlt]
    have hne : t.get (i + 1) ≠ [] := fun hnil => ht.2 (hnil ▸ hget ▸ List.getElem_mem hlt)
    have hfind : t.stored.findIdx? (· = t.get (i + 1)) = some i := by
      refine List.findIdx?_eq_some_iff_getElem.mpr ⟨hlt, by simp [hget], fun j hj => ?_⟩
      have hne' : t.stored[j] ≠ t.stored[i] := by
        intro heq
        have := (List.Nodup.getElem_inj_iff ht.1).mp heq
        omega
      simpa [hget] using hne'
    simp only [ListTable.intern, if_neg hne, hfind]

end ListTable

end Supertypes
