import Supertypes.Proofs.Constructed
import Supertypes.Proofs.SymbolTables
import Supertypes.Types.Digest

/-!
# The last slots of the high shards

A handle is the packed address of a structure, raised above the intrinsic handles. The check for
full shards lets every slot up to `TypeId.maxSlot` be assigned, and so addresses that the raise
takes over the end of the word.

- `TypeId.Fits`: an address for which there is a word above the intrinsic handles.
- `Interner.Assigns`: interning a structure puts it to an address. By `Interner.assigns_filled`
  each slot of a shard is reached by calls, as long as the digest puts enough parameters into the
  shard.
- `TypeId.packing_safe_iff`: the handle of such an address is different from those of all others,
  and holds the address. It lies above the intrinsic handles, and reads as the structure put
  there, just if the address fits. This leaves out the last slots of the shards from number 48
  on.

None of this depends on how structures are spread over the shards.
-/

namespace Supertypes

/-! ## Words for addresses -/

namespace TypeId

variable {a : Address}

/-- The address has a word of its own above the intrinsic handles: each slot but the last has
one, and the last slot if the offset of the handles does not push the shard out of the word. -/
def Fits (a : Address) : Prop :=
  a.slot < maxSlot ∨ a.shard + firstUser.toNat < shardCount

instance (a : Address) : Decidable (Fits a) :=
  inferInstanceAs (Decidable (_ ∨ _))

theorem toNat_pack (ha : a.slot ≤ maxSlot) : a.pack.toNat = a.slot * shardCount + a.shard :=
  Address.toNat_pack ha

/-- Packing shifts the slot beyond the bits of the shard, and no bit is lost. -/
theorem pack_eq_or (ha : a.slot ≤ maxSlot) :
    a.pack = UInt32.ofNat a.slot <<< 6 ||| UInt32.ofNat a.shard := by
  have hslot : a.slot ≤ 67108863 := ha
  have hshard : (a.shard : Nat) < 2 ^ 6 := a.shard.isLt
  have hshifted : (UInt32.ofNat a.slot <<< 6).toNat = a.slot <<< 6 := by
    rw [UInt32.toNat_shiftLeft, UInt32.toNat_ofNat_of_lt' (show a.slot < 4294967296 by omega)]
    refine Nat.mod_eq_of_lt ?_
    show a.slot <<< 6 < 4294967296
    rw [Nat.shiftLeft_eq]
    omega
  apply UInt32.toNat_inj.mp
  rw [toNat_pack ha, UInt32.toNat_or, hshifted,
    UInt32.toNat_ofNat_of_lt' (show (a.shard : Nat) < 4294967296 by omega),
    ← Nat.shiftLeft_add_eq_or_of_lt hshard, Nat.shiftLeft_eq]
  rfl

/-- The sum of the offset and the packed address stays within the word. -/
theorem fits_iff_lt_size (ha : a.slot ≤ maxSlot) :
    firstUser.toNat + a.pack.toNat < UInt32.size ↔ Fits a := by
  have hslot : a.slot ≤ 67108863 := ha
  have hshard : (a.shard : Nat) < 64 := a.shard.isLt
  rw [toNat_pack ha]
  show 16 + (a.slot * 64 + a.shard) < 4294967296 ↔
    a.slot < 67108863 ∨ (a.shard : Nat) + 16 < 64
  omega

theorem isIntrinsic_eq_false_iff (ha : a.slot ≤ maxSlot) :
    (ofAddress a).isIntrinsic = false ↔ Fits a := by
  have hslot : a.slot ≤ 67108863 := ha
  have hshard : (a.shard : Nat) < 64 := a.shard.isLt
  rw [← Bool.not_eq_true, isIntrinsic_iff, toNat_ofAddress ha]
  show ¬ _ ↔ a.slot < 67108863 ∨ (a.shard : Nat) + 16 < 64
  omega

theorem firstUser_le_iff (id : TypeId) : firstUser ≤ id.word ↔ id.isIntrinsic = false := by
  rw [← UInt32.not_lt, ← Bool.not_eq_true]
  exact not_congr decide_eq_true_iff.symm

/-- Even where a handle has run over, taking the offset away again gives the address. -/
theorem address_ofAddress (ha : a.slot ≤ maxSlot) : (ofAddress a).address = a := by
  have hback : firstUser + a.pack - firstUser = a.pack := by
    rw [UInt32.add_comm, UInt32.add_sub_cancel]
  show Address.unpack (firstUser + a.pack - firstUser) = a
  rw [hback, Address.unpack_pack ha]

end TypeId

/-! ## Slots that are assigned -/

namespace Interner

open TypeId

section

variable [Digest TypeData] {t : Interner} {data : TypeData} {a : Address}

/-- Interning the structure puts it to the address, where nothing was before. -/
def Assigns (t : Interner) (data : TypeData) (a : Address) : Prop :=
  t.types.get? a = none ∧ ((intern data).run t).2.types.get? a = some data

/-- What is put to an address needs a table. -/
theorem Assigns.needs_table (h : t.Assigns data a) :
    data ≠ .never ∧ ∀ reason, data ≠ .any reason := by
  constructor
  · rintro rfl
    cases h.1.symm.trans h.2
  · rintro reason rfl
    cases h.1.symm.trans h.2

/-- A structure is put to an address by adding it to its shard, and only if that is not full. -/
theorem Assigns.cases (h : t.Assigns data a) :
    ¬ t.types.Full maxSlot data ∧ a = ⟨shardOf data, (t.types.shard (shardOf data)).length⟩ ∧
      t.types.intern maxSlot data = (some a, { entries := t.types.entries ++ [data] }) := by
  obtain ⟨hnever, hany⟩ := h.needs_table
  obtain ⟨hbefore, hafter⟩ := h
  rw [intern_run hnever hany] at hafter
  dsimp only at hafter
  rcases Table.intern_cases maxSlot t.types data with ⟨b, -, heq⟩ | ⟨-, -, heq⟩ | ⟨-, hroom, heq⟩
  · rw [heq] at hafter
    cases hbefore.symm.trans hafter
  · rw [heq] at hafter
    cases hbefore.symm.trans hafter
  · rw [heq] at hafter ⊢
    unfold Table.get? at hbefore hafter
    rw [Table.shard_append] at hafter
    -- the address is in the part of the shard that is new
    have hlast := List.getElem?_eq_none_iff.mp hbefore
    rw [List.getElem?_append_right hlast] at hafter
    have ha : a = ⟨shardOf data, (t.types.shard (shardOf data)).length⟩ := by
      obtain ⟨shard, slot⟩ := a
      by_cases hshard : shardOf data = shard
      · subst hshard
        rw [if_pos rfl] at hafter
        obtain ⟨hlt, -⟩ := List.getElem?_eq_some_iff.mp hafter
        rw [List.length_singleton] at hlt
        dsimp only at hlast hlt
        exact congrArg (Address.mk (shardOf data)) (by omega)
      · rw [if_neg hshard] at hafter
        cases hafter
    exact ⟨hroom, ha, by rw [ha]⟩

theorem Assigns.slot_le (h : t.Assigns data a) : a.slot ≤ maxSlot := by
  obtain ⟨hroom, ha, -⟩ := h.cases
  rw [ha]
  exact Nat.not_lt.mp hroom

/-- What is put to an address gets the handle of the address. -/
theorem Assigns.handle (h : t.Assigns data a) : ((intern data).run t).1 = ofAddress a := by
  obtain ⟨hnever, hany⟩ := h.needs_table
  rw [intern_run hnever hany, h.cases.2.2]
  rfl

/-- The handle reads as the structure, unless it has run over the end of the word. -/
theorem Assigns.lookup_iff (h : t.Assigns data a) :
    ((intern data).run t).2.lookup (ofAddress a) = some data ↔ Fits a := by
  rw [← isIntrinsic_eq_false_iff h.slot_le]
  constructor
  · intro hlookup
    by_contra hintrinsic
    rw [Bool.not_eq_false] at hintrinsic
    obtain ⟨hnever, hany⟩ := h.needs_table
    rcases data_of_intrinsic hintrinsic hlookup with heq | ⟨reason, heq⟩
    · exact hnever heq
    · exact hany reason heq
  · intro huser
    rw [lookup_of_user huser, address_ofAddress h.slot_le]
    exact h.2

/-! ### Filling a shard -/

variable {ps : Nat → Param} {s : Fin shardCount} {n : Nat}

/-- Tables with the first `n` of the given parameters. -/
def filled (ps : Nat → Param) (n : Nat) : Interner where
  types := { entries := (List.range n).map fun i => .param (ps i) }

theorem shard_filled (hshard : ∀ i, shardOf (TypeData.param (ps i)) = s) (n : Nat) :
    (filled ps n).types.shard s = (filled ps n).types.entries := by
  refine List.filter_eq_self.mpr fun data hdata => ?_
  obtain ⟨i, -, rfl⟩ := List.mem_map.mp hdata
  exact decide_eq_true (hshard i)

theorem length_shard_filled (hshard : ∀ i, shardOf (TypeData.param (ps i)) = s) (n : Nat) :
    ((filled ps n).types.shard s).length = n := by
  rw [shard_filled hshard]
  simp [filled]

/-- The next parameter goes to the next slot. -/
theorem param_run_filled (hps : Function.Injective ps)
    (hshard : ∀ i, shardOf (TypeData.param (ps i)) = s) (h : n ≤ maxSlot) :
    (Interner.param (ps n)).run (filled ps n) = (ofAddress ⟨s, n⟩, filled ps (n + 1)) := by
  have hnew : (filled ps n).types.find? (.param (ps n)) = none := by
    rw [Table.find?_eq_none_iff]
    intro hmem
    obtain ⟨i, hi, heq⟩ := List.mem_map.mp hmem
    obtain rfl := hps (TypeData.param.inj heq)
    exact absurd (List.mem_range.mp hi) (Nat.lt_irrefl i)
  have hroom : ¬ (filled ps n).types.Full maxSlot (.param (ps n)) := by
    unfold Table.Full
    rw [hshard, length_shard_filled hshard]
    exact Nat.not_lt.mpr h
  have hentries : (filled ps n).types.entries ++ [.param (ps n)] =
      (filled ps (n + 1)).types.entries := by
    unfold filled
    rw [List.range_succ, List.map_append]
    rfl
  show (intern (.param (ps n))).run (filled ps n) = _
  rw [intern_run (by simp) (by simp)]
  unfold Table.intern
  rw [hnew]
  dsimp only
  rw [if_neg hroom, hshard, length_shard_filled hshard, hentries]
  rfl

/-- Calls fill a shard up to its last slot. -/
theorem reached_filled (hps : Function.Injective ps)
    (hshard : ∀ i, shardOf (TypeData.param (ps i)) = s) (h : n ≤ maxSlot + 1) :
    Reached (filled ps n) := by
  induction n with
  | zero => exact .empty
  | succ n ih =>
    have hnext := (ih (Nat.le_of_succ_le h)).build (.param (ps n)) (by simp [Call.operands])
    have hrun := param_run_filled hps hshard (Nat.le_of_succ_le_succ h)
    rwa [show (Call.param (ps n)).build = Interner.param (ps n) from rfl, hrun] at hnext

theorem assigns_filled (hps : Function.Injective ps)
    (hshard : ∀ i, shardOf (TypeData.param (ps i)) = s) (h : n ≤ maxSlot) :
    (filled ps n).Assigns (.param (ps n)) ⟨s, n⟩ := by
  have hrun := param_run_filled hps hshard h
  unfold Interner.param at hrun
  unfold Assigns Table.get?
  rw [hrun, shard_filled hshard, shard_filled hshard]
  simp [filled]

end

/-- Type parameters of one name, every `shardCount`th one from number `c` on. -/
def paramsFrom (c n : Nat) : Param :=
  ⟨⟨c + shardCount * n⟩, "T"⟩

theorem paramsFrom_injective (c : Nat) : Function.Injective (paramsFrom c) := by
  intro m n h
  have hnumber : c + 64 * m = c + 64 * n := congrArg (fun p => p.id.number) h
  omega

/-- With the digest in use they all belong to one shard. -/
theorem shardOf_paramsFrom (c n : Nat) :
    shardOf (TypeData.param (paramsFrom c n)) = shardOf (TypeData.param (paramsFrom c 0)) := by
  refine Fin.ext ?_
  show (3 * (c + 64 * n) + nameDigest "T") % 64 = (3 * (c + 64 * 0) + nameDigest "T") % 64
  omega

end Interner

/-! ## Safe handles -/

namespace TypeId

open Interner

/-- Every address up to the last slot is assigned to some structure, if enough parameters belong
to its shard. Its packed word is the shifted slot beside the shard, its handle holds the address,
and no other such address has the same handle. The offset stays within the word, the handle is
not intrinsic, and it reads as the structure that is put to the address, if and only if the
address fits. -/
theorem packing_safe_iff [Digest TypeData] {a : Address} (ha : a.slot ≤ maxSlot) :
    (∀ ps : Nat → Param, Function.Injective ps →
      (∀ i, shardOf (TypeData.param (ps i)) = a.shard) →
      ∃ t data, Reached t ∧ t.Assigns data a) ∧
    a.pack = UInt32.ofNat a.slot <<< 6 ||| UInt32.ofNat a.shard ∧
    (ofAddress a).address = a ∧
    (∀ b : Address, b.slot ≤ maxSlot → ofAddress b = ofAddress a → b = a) ∧
    (firstUser.toNat + a.pack.toNat < UInt32.size ↔ Fits a) ∧
    (firstUser ≤ (ofAddress a).word ↔ Fits a) ∧
    ∀ t data, t.Assigns data a → ((intern data).run t).1 = ofAddress a ∧
      (((intern data).run t).2.lookup (ofAddress a) = some data ↔ Fits a) := by
  refine ⟨?_, pack_eq_or ha, address_ofAddress ha, ?_, fits_iff_lt_size ha, ?_, ?_⟩
  · intro ps hps hshard
    exact ⟨_, _, reached_filled hps hshard (Nat.le_succ_of_le ha), assigns_filled hps hshard ha⟩
  · intro b hb heq
    rw [← address_ofAddress ha, ← heq, address_ofAddress hb]
  · rw [firstUser_le_iff, isIntrinsic_eq_false_iff ha]
  · exact fun t data h => ⟨h.handle, h.lookup_iff⟩

/-- The last slot of the last shard that has a handle for it. -/
theorem lastFitting_packing_safe :
    let a : Address := ⟨⟨47, by decide⟩, maxSlot⟩
    a.slot ≤ maxSlot ∧ Fits a ∧ (∃ t data, Reached t ∧ t.Assigns data a) ∧
      firstUser.toNat + a.pack.toNat < UInt32.size ∧
      firstUser ≤ (ofAddress a).word ∧ (ofAddress a).address = a ∧
      (ofAddress a).word = 4294967295 := by
  intro a
  have hfits : Fits a := .inr (by decide)
  have hshard : ∀ i, shardOf (TypeData.param (paramsFrom 9 i)) = a.shard :=
    fun i => (shardOf_paramsFrom 9 i).trans (by decide)
  obtain ⟨hassigned, -, haddress, -, hsize, huser, -⟩ := packing_safe_iff (a := a) (Nat.le_refl _)
  exact ⟨Nat.le_refl _, hfits, hassigned _ (paramsFrom_injective 9) hshard, hsize.mpr hfits,
    huser.mpr hfits, haddress, by decide +kernel⟩

/-- Calls fill shard 49 but for the last slot. The type parameter that is put there gets the
handle of `Never`, and reads as `Never`. -/
theorem lastSlot_handle_never :
    let a : Address := ⟨⟨49, by decide⟩, maxSlot⟩
    let t := filled (paramsFrom 31) maxSlot
    let data := TypeData.param (paramsFrom 31 maxSlot)
    a.slot ≤ maxSlot ∧ Reached t ∧ t.Assigns data a ∧
      UInt32.size ≤ firstUser.toNat + a.pack.toNat ∧ ¬ firstUser ≤ (ofAddress a).word ∧
      ((intern data).run t).1 = .never ∧ ((intern data).run t).2.lookup .never = some .never := by
  intro a t data
  have hps := paramsFrom_injective 31
  have hshard : ∀ i, shardOf (TypeData.param (paramsFrom 31 i)) = a.shard :=
    fun i => (shardOf_paramsFrom 31 i).trans (by decide)
  have hassigns : t.Assigns data a := assigns_filled hps hshard (Nat.le_refl _)
  have hnever : ofAddress a = .never := by decide +kernel
  refine ⟨Nat.le_refl _, reached_filled hps hshard (Nat.le_succ _), hassigns, by decide +kernel,
    ?_, ?_, rfl⟩
  · rw [hnever]
    decide
  · rw [hassigns.handle, hnever]

end TypeId

end Supertypes
