import Mathlib.Data.List.Dedup
import Mathlib.Data.List.Perm.Subperm
import Supertypes.Proofs.Tables
import Supertypes.Symbols

/-!
# Names and their symbols

- `Address.unpack_pack` and `Address.unpack_injective`: words and addresses stand for each other.
- `SymbolTable.Runs`: interning names one after another, with a log of the symbols answered.
- `SymbolTable.Fits`: no shard is given more names than it has slots. By
  `SymbolTable.Runs.fits_of_room` this is so if no shard is full in the end.
- `SymbolTable.Faithful`: the table holds the names of the log and no others, each at the address
  that its symbol packs. `SymbolTable.Faithful.intern` says that a name with a slot left keeps
  this, and `SymbolTable.Runs.faithful` that every run leads there.
- `SymbolTable.Runs.symbols_faithful`: symbols and names stand for each other.

All of this holds however names are spread over the shards.
-/

namespace Supertypes

/-! ## Words and addresses -/

namespace Address

/-- In the range of slots a packed address is its slot and its shard. -/
theorem toNat_pack {a : Address} (h : a.slot ≤ maxSlot) :
    a.pack.toNat = a.slot * shardCount + a.shard := by
  have hshard := a.shard.isLt
  unfold pack
  rw [UInt32.toNat_ofNat', Nat.mod_eq_of_lt]
  unfold maxSlot UInt32.size at h
  unfold shardCount at *
  omega

/-- A slot that fits beside the shard can be read back. -/
theorem unpack_pack {a : Address} (h : a.slot ≤ maxSlot) : unpack a.pack = a := by
  have hshard := a.shard.isLt
  have hword := toNat_pack h
  obtain ⟨shard, slot⟩ := a
  refine congrArg₂ Address.mk (Fin.ext ?_) ?_
  · show (pack ⟨shard, slot⟩).toNat % shardCount = shard
    rw [hword, Nat.mul_add_mod_self_right, Nat.mod_eq_of_lt hshard]
  · show (pack ⟨shard, slot⟩).toNat / shardCount = slot
    rw [hword]
    show (slot * shardCount + shard) / shardCount = slot
    unfold shardCount at *
    omega

theorem unpack_injective {v w : UInt32} (h : unpack v = unpack w) : v = w := by
  unfold unpack shardCount at h
  obtain ⟨hshard, hslot⟩ := Address.mk.inj h
  have hmod : v.toNat % 64 = w.toNat % 64 := congrArg Fin.val hshard
  exact UInt32.toNat_inj.mp (by omega)

end Address

/-- Symbols that hold the same address are equal. -/
theorem Symbol.eq_of_unpack {a b : Symbol} (h : Address.unpack a.word = Address.unpack b.word) :
    a = b := by
  obtain ⟨v⟩ := a
  obtain ⟨w⟩ := b
  exact congrArg Symbol.mk (Address.unpack_injective h)

namespace SymbolTable

section

variable [Spread] {s s' : String} {a : Symbol} {names : List String}
  {log : List (String × Symbol)} {t t' : SymbolTable}

/-! ## Interning -/

/-- What interning a name does. -/
theorem intern_run (hs : s ≠ "") (t : SymbolTable) :
    (intern s).run t =
      (((t.names.intern Address.maxSlot s).1.map fun a => ⟨a.pack⟩).getD .none,
        ⟨(t.names.intern Address.maxSlot s).2⟩) := by
  unfold intern
  rw [if_neg hs]
  rfl

/-- Names and symbols as `intern` answers them, one name after another. -/
def logOf : List String → SymbolTable → List (String × Symbol)
  | [], _ => []
  | s :: rest, t => (s, ((intern s).run t).1) :: logOf rest ((intern s).run t).2

/-- The names interned one after another. -/
def internAll (names : List String) (t : SymbolTable) : SymbolTable :=
  names.foldl (fun t s => ((intern s).run t).2) t

theorem internCommon_run (t : SymbolTable) :
    (internCommon.run t).2 = t.internAll common := by
  unfold internCommon
  generalize common = names
  induction names generalizing t with
  | nil => rfl
  | cons s rest ih =>
    exact ih _

@[simp] theorem map_fst_logOf (names : List String) (t : SymbolTable) :
    (logOf names t).map Prod.fst = names := by
  induction names generalizing t with
  | nil => rfl
  | cons s rest ih => rw [logOf, List.map_cons, ih]

/-- A run of calls, with the names that it interns and the symbols that they get. -/
inductive Runs (t₀ : SymbolTable) : List (String × Symbol) → SymbolTable → Prop
  | start : Runs t₀ [] t₀
  | intern {log : List (String × Symbol)} {t : SymbolTable} (hrun : Runs t₀ log t) (s : String) :
    Runs t₀ (log ++ [(s, ((SymbolTable.intern s).run t).1)]) ((SymbolTable.intern s).run t).2
  | internCommon {log : List (String × Symbol)} {t : SymbolTable} (hrun : Runs t₀ log t) :
    Runs t₀ (log ++ logOf common t) (SymbolTable.internCommon.run t).2

/-! ## Room -/

/-- Each shard has slots enough for the different names that belong there, the empty one
included. -/
def Fits (names : List String) : Prop :=
  ∀ shard, (("" :: names).dedup.filter (shardOf · = shard)).length ≤ Address.maxSlot + 1

theorem Fits.mono {names names' : List String} (h : Fits names') (hsub : names ⊆ names') :
    Fits names := by
  intro shard
  refine Nat.le_trans ?_ (h shard)
  -- without repetitions a sublist of the names is no longer
  have hnodup := (List.nodup_dedup ("" :: names)).filter (shardOf · = shard)
  refine (List.subperm_of_subset hnodup fun s hs => ?_).length_le
  simp only [List.mem_filter, List.mem_dedup, List.mem_cons] at hs ⊢
  exact ⟨hs.1.imp_right fun hmem => hsub hmem, hs.2⟩

/-- A few names fit anywhere. -/
theorem fits_of_length (h : names.length ≤ Address.maxSlot) : Fits names := by
  intro shard
  have hfilter := List.length_filter_le (fun s => decide (shardOf s = shard)) ("" :: names).dedup
  have hdedup := (List.dedup_sublist ("" :: names)).length_le
  rw [List.length_cons] at hdedup
  omega

/-! ## The invariant -/

/-- The table holds the empty name and the names of the log, each of them once and at the address
that its symbol packs. -/
structure Faithful (log : List (String × Symbol)) (t : SymbolTable) : Prop where
  bounded : t.names.Bounded Address.maxSlot
  nodup : t.names.entries.Nodup
  empty : t.names.find? "" = some (Address.unpack Symbol.none.word)
  mem_iff : ∀ s, s ∈ t.names.entries ↔ s = "" ∨ s ∈ log.map Prod.fst
  addressed : ∀ s a, (s, a) ∈ log → t.names.find? s = some (Address.unpack a.word)

/-- At the start there is the empty name alone. -/
theorem Faithful.initial : Faithful [] {} where
  bounded := by
    intro shard
    refine Nat.le_trans (List.length_filter_le _ _) ?_
    decide
  nodup := List.nodup_singleton ""
  empty := rfl
  mem_iff := by simp
  addressed := fun s a hmem => absurd hmem List.not_mem_nil

/-- A symbol that packs the address of a name is the name's. -/
theorem Faithful.concat (hf : Faithful log t) (hle : t.names ≤ t'.names)
    (hbounded : t'.names.Bounded Address.maxSlot) (hnodup : t'.names.entries.Nodup)
    (hmem : ∀ x, x ∈ t'.names.entries ↔ x ∈ t.names.entries ∨ x = s)
    (haddress : t'.names.find? s = some (Address.unpack a.word)) :
    Faithful (log ++ [(s, a)]) t' where
  bounded := hbounded
  nodup := hnodup
  empty := Table.find?_of_le hle hf.empty
  mem_iff := by
    intro x
    simp [hmem, hf.mem_iff, or_assoc]
  addressed := by
    intro x b hx
    rcases List.mem_append.mp hx with hold | hnew
    · exact Table.find?_of_le hle (hf.addressed x b hold)
    · obtain ⟨rfl, rfl⟩ := Prod.mk.inj (List.mem_singleton.mp hnew)
      exact haddress

/-- A new name finds a slot if its shard has one for it. -/
theorem Faithful.not_full (hf : Faithful log t) (hfits : Fits (log.map Prod.fst ++ [s]))
    (hnew : s ∉ t.names.entries) : ¬ t.names.Full Address.maxSlot s := by
  intro hfull
  unfold Table.Full at hfull
  -- the shard and the new name are different names that belong there
  have hsub : s :: t.names.shard (shardOf s) ⊆
      ("" :: (log.map Prod.fst ++ [s])).dedup.filter (shardOf · = shardOf s) := by
    intro x hx
    rw [List.mem_filter, List.mem_dedup, decide_eq_true_eq]
    rcases List.mem_cons.mp hx with rfl | hx
    · exact ⟨by simp, rfl⟩
    · obtain ⟨hentry, hshard⟩ := List.mem_filter.mp hx
      refine ⟨?_, of_decide_eq_true hshard⟩
      rcases (hf.mem_iff x).mp hentry with rfl | hlog
      · exact List.mem_cons_self
      · exact List.mem_cons_of_mem _ (List.mem_append_left _ hlog)
  have hnodup : (s :: t.names.shard (shardOf s)).Nodup :=
    List.nodup_cons.mpr ⟨fun hmem => hnew (List.mem_of_mem_filter hmem), hf.nodup.filter _⟩
  have hlength := (List.subperm_of_subset hnodup hsub).length_le
  have hroom := hfits (shardOf s)
  rw [List.length_cons] at hlength
  omega

/-- Interning a name for which there is a slot. -/
theorem Faithful.intern (hf : Faithful log t) (s : String)
    (hfits : Fits (log.map Prod.fst ++ [s])) :
    Faithful (log ++ [(s, ((SymbolTable.intern s).run t).1)]) ((SymbolTable.intern s).run t).2 := by
  -- the empty name is there from the start
  by_cases hs : s = ""
  · subst hs
    refine hf.concat t.names.le_refl hf.bounded hf.nodup (fun x => ?_) hf.empty
    have hempty := (hf.mem_iff "").mpr (.inl rfl)
    refine ⟨.inl, ?_⟩
    rintro (hx | rfl)
    · exact hx
    · exact hempty
  -- the shard of the name has a slot left, or the name is there already
  · have hanswer : ∃ address, (t.names.intern Address.maxSlot s).1 = some address := by
      rcases Table.intern_cases Address.maxSlot t.names s with ⟨address, -, heq⟩ |
        ⟨hnew, hfull, -⟩ | ⟨-, -, heq⟩
      · exact ⟨address, congrArg Prod.fst heq⟩
      · exact absurd hfull (hf.not_full hfits (Table.find?_eq_none_iff.mp hnew))
      · exact ⟨_, congrArg Prod.fst heq⟩
    obtain ⟨address, hanswer⟩ := hanswer
    have hbounded := hf.bounded.intern s
    have hfind := Table.find?_intern hanswer
    have hle := t.names.le_intern Address.maxSlot s
    rw [intern_run hs, hanswer]
    refine hf.concat hle hbounded (Table.nodup_intern hf.nodup _ s)
      (fun x => ⟨Table.mem_entries_intern, ?_⟩) ?_
    · rintro (hx | rfl)
      · exact Table.entries_subset hle hx
      · exact Table.mem_of_get? (Table.get?_of_find? hfind)
    · show Table.find? _ s = some (Address.unpack address.pack)
      rw [Address.unpack_pack (Table.slot_le_of_find? hbounded hfind)]
      exact hfind

/-- Interning names one after another, if there are slots for all of them. -/
theorem Faithful.internAll (hf : Faithful log t) (names : List String)
    (hfits : Fits (log.map Prod.fst ++ names)) :
    Faithful (log ++ logOf names t) (t.internAll names) := by
  induction names generalizing log t with
  | nil => simpa [logOf, SymbolTable.internAll] using hf
  | cons s rest ih =>
    have hnext := hf.intern s (hfits.mono (by simp))
    have hrest := ih hnext (by simpa using hfits)
    rw [List.append_assoc] at hrest
    exact hrest

/-! ## Runs -/

/-- Every run within the slots leads to a table that holds the names of the log. -/
theorem Runs.faithful (hrun : Runs {} log t) (hfits : Fits (log.map Prod.fst)) :
    Faithful log t := by
  induction hrun with
  | start => exact .initial
  | intern _ s ih =>
    rw [List.map_append] at hfits
    exact (ih (hfits.mono (List.subset_append_left _ _))).intern s hfits
  | internCommon _ ih =>
    rw [List.map_append, map_fst_logOf] at hfits
    rw [internCommon_run]
    exact (ih (hfits.mono (List.subset_append_left _ _))).internAll common hfits

/-- Tables only grow, whether or not names still find slots. -/
theorem le_intern (s : String) (t : SymbolTable) : t.names ≤ ((intern s).run t).2.names := by
  by_cases hs : s = ""
  · subst hs
    exact t.names.le_refl
  · rw [intern_run hs]
    exact t.names.le_intern _ s

theorem le_internAll (names : List String) (t : SymbolTable) :
    t.names ≤ (t.internAll names).names := by
  induction names generalizing t with
  | nil => exact t.names.le_refl
  | cons s rest ih => exact Table.le_trans (le_intern s t) (ih _)

theorem Runs.le (hrun : Runs t log t') : t.names ≤ t'.names := by
  induction hrun with
  | start => exact t.names.le_refl
  | intern _ s ih => exact Table.le_trans ih (le_intern s _)
  | internCommon _ ih =>
    rw [internCommon_run]
    exact Table.le_trans ih (le_internAll common _)

/-- No shard is full. -/
def HasRoom (t : SymbolTable) : Prop :=
  ∀ shard, (t.names.shard shard).length ≤ Address.maxSlot

theorem HasRoom.of_le (h : t'.HasRoom) (hle : t.names ≤ t'.names) : t.HasRoom :=
  fun shard => Nat.le_trans (Table.shard_grows hle shard).length_le (h shard)

/-- A name is in the table after it has been interned, if no shard is full then. -/
theorem mem_intern (hroom : ((intern s).run t).2.HasRoom) :
    s = "" ∨ s ∈ ((intern s).run t).2.names.entries := by
  by_cases hs : s = ""
  · exact .inl hs
  · right
    have hbefore := hroom.of_le (le_intern s t)
    rw [intern_run hs]
    rcases Table.intern_cases Address.maxSlot t.names s with ⟨address, hfind, heq⟩ |
      ⟨-, hfull, -⟩ | ⟨-, -, heq⟩
    · rw [heq]
      exact Table.mem_of_get? (Table.get?_of_find? hfind)
    · have hshard := hbefore (shardOf s)
      unfold Table.Full at hfull
      omega
    · rw [heq]
      simp

theorem mem_internAll (names : List String) (hroom : (t.internAll names).HasRoom) :
    ∀ s ∈ names, s = "" ∨ s ∈ (t.internAll names).names.entries := by
  induction names generalizing t with
  | nil => simp
  | cons first rest ih =>
    have hle := le_internAll rest ((intern first).run t).2
    rw [List.forall_mem_cons]
    exact ⟨(mem_intern (hroom.of_le hle)).imp_right (Table.entries_subset hle ·), ih hroom⟩

/-- While there is room every name of a run is in the table. -/
theorem Runs.mem_of_room (hrun : Runs {} log t) (hroom : t.HasRoom) :
    ∀ s ∈ log.map Prod.fst, s = "" ∨ s ∈ t.names.entries := by
  induction hrun with
  | start => simp
  | @intern log t _ s ih =>
    have hle := le_intern s t
    rw [List.map_append, List.forall_mem_append]
    refine ⟨fun x hx => (ih (hroom.of_le hle) x hx).imp_right (Table.entries_subset hle ·), ?_⟩
    simpa using mem_intern hroom
  | @internCommon log t _ ih =>
    rw [internCommon_run] at hroom ⊢
    have hle := le_internAll common t
    rw [List.map_append, map_fst_logOf, List.forall_mem_append]
    exact ⟨fun x hx => (ih (hroom.of_le hle) x hx).imp_right (Table.entries_subset hle ·),
      mem_internAll common hroom⟩

/-- If no shard is full after a run, its names have had slots enough. -/
theorem Runs.fits_of_room (hrun : Runs {} log t) (hroom : t.HasRoom) :
    Fits (log.map Prod.fst) := by
  intro shard
  have hnodup := (List.nodup_dedup ("" :: log.map Prod.fst)).filter (shardOf · = shard)
  have hempty : "" ∈ t.names.entries := Table.entries_subset hrun.le (List.mem_singleton_self "")
  have hsub : ("" :: log.map Prod.fst).dedup.filter (shardOf · = shard) ⊆ t.names.shard shard := by
    intro s hs
    rw [List.mem_filter, List.mem_dedup, List.mem_cons] at hs
    refine List.mem_filter.mpr ⟨?_, hs.2⟩
    rcases hs.1 with rfl | hlog
    · exact hempty
    · rcases hrun.mem_of_room hroom s hlog with rfl | hentry
      · exact hempty
      · exact hentry
  have hlength := (List.subperm_of_subset hnodup hsub).length_le
  have hshard := hroom shard
  omega

/-! ## Symbols for names -/

/-- The symbol of a name reads as the name. -/
theorem Faithful.get?_of_mem (hf : Faithful log t) (hmem : (s, a) ∈ log) : t.get? a = some s :=
  Table.get?_of_find? (hf.addressed s a hmem)

theorem Faithful.get?_none (hf : Faithful log t) : t.get? .none = some "" :=
  Table.get?_of_find? hf.empty

/-- Two symbols of the log are equal just if their names are. -/
theorem Faithful.symbol_eq_iff (hf : Faithful log t) {b : Symbol} (ha : (s, a) ∈ log)
    (hb : (s', b) ∈ log) : a = b ↔ s = s' := by
  constructor
  · rintro rfl
    exact Option.some.inj ((hf.get?_of_mem ha).symm.trans (hf.get?_of_mem hb))
  · rintro rfl
    refine Symbol.eq_of_unpack ?_
    exact Option.some.inj ((hf.addressed s a ha).symm.trans (hf.addressed s b hb))

theorem Faithful.eq_none_iff (hf : Faithful log t) (ha : (s, a) ∈ log) : a = .none ↔ s = "" := by
  constructor
  · rintro rfl
    exact Option.some.inj ((hf.get?_of_mem ha).symm.trans hf.get?_none)
  · rintro rfl
    refine Symbol.eq_of_unpack ?_
    exact Option.some.inj ((hf.addressed "" a ha).symm.trans hf.empty)

/-- A word that is no symbol of the log reads as nothing, unless it is the empty name's. -/
theorem Faithful.get?_eq_none (hf : Faithful log t) (hnone : a ≠ .none)
    (hnew : a ∉ log.map Prod.snd) : t.get? a = none := by
  rw [Option.eq_none_iff_forall_ne_some]
  intro s hs
  have hfind := Table.find?_of_get? hf.nodup hs
  rcases (hf.mem_iff s).mp (Table.mem_of_get? hs) with rfl | hlog
  · exact hnone (Symbol.eq_of_unpack (Option.some.inj (hfind.symm.trans hf.empty)))
  · obtain ⟨⟨s, b⟩, hmem, rfl⟩ := List.mem_map.mp hlog
    have heq := Option.some.inj (hfind.symm.trans (hf.addressed s b hmem))
    exact hnew (List.mem_map.mpr ⟨(s, b), hmem, (Symbol.eq_of_unpack heq).symm⟩)

/-- The empty name and the different names interned are all there is. -/
theorem Faithful.size_eq (hf : Faithful log t) :
    t.size = 1 + ((log.map Prod.fst).filter (· ≠ "")).dedup.length := by
  have hnodup : ("" :: ((log.map Prod.fst).filter (· ≠ "")).dedup).Nodup := by
    refine List.nodup_cons.mpr ⟨?_, List.nodup_dedup _⟩
    simp
  have hperm : t.names.entries.Perm ("" :: ((log.map Prod.fst).filter (· ≠ "")).dedup) := by
    refine (List.perm_ext_iff_of_nodup hf.nodup hnodup).mpr fun s => ?_
    rw [hf.mem_iff, List.mem_cons, List.mem_dedup, List.mem_filter]
    by_cases hs : s = "" <;> simp [hs]
  show t.names.entries.length = _
  rw [hperm.length_eq, List.length_cons, Nat.add_comm]

/-- However names are spread over the shards, let a run of calls on a fresh table give no shard
more names than it has slots. Then two names get the same symbol just if they are equal, and only
the empty name gets the symbol of the empty name. A symbol reads as its name, then and after any
further calls. A word that is no symbol of the run reads as nothing, the empty name's own
excepted. The size is one more than the number of different names that are not empty. -/
theorem Runs.symbols_faithful (hrun : Runs {} log t) (hfits : Fits (log.map Prod.fst)) :
    (∀ s a s' b, (s, a) ∈ log → (s', b) ∈ log → (a = b ↔ s = s')) ∧
    (∀ s a, (s, a) ∈ log → (a = .none ↔ s = "")) ∧
    (∀ s a, (s, a) ∈ log → ∀ more t', Runs t more t' → t'.get? a = some s ∧ t'.text a = s) ∧
    (∀ a, a ∉ log.map Prod.snd → a ≠ .none → t.get? a = none ∧ t.text a = "") ∧
    (t.get? .none = some "" ∧ t.text .none = "") ∧
    t.size = 1 + ((log.map Prod.fst).filter (· ≠ "")).dedup.length := by
  have hf := hrun.faithful hfits
  refine ⟨fun s a s' b ha hb => hf.symbol_eq_iff ha hb, fun s a ha => hf.eq_none_iff ha, ?_, ?_, ?_,
    hf.size_eq⟩
  · intro s a ha more t' hmore
    have hget : t'.get? a = some s := Table.get?_of_le hmore.le (hf.get?_of_mem ha)
    exact ⟨hget, by rw [text, hget]; rfl⟩
  · intro a hnew hnone
    have hget := hf.get?_eq_none hnone hnew
    exact ⟨hget, by rw [text, hget]; rfl⟩
  · exact ⟨hf.get?_none, by rw [text, hf.get?_none]; rfl⟩

end

/-- `tuple` interned before and after the common names, of which it is one. -/
theorem tuple_symbol_faithful :
    let first := (intern "tuple").run {}
    let again := (intern "tuple").run (internCommon.run first.2).2
    Fits ("tuple" :: common ++ ["tuple"]) ∧
      again.1 = first.1 ∧ first.1 ≠ .none ∧ again.2.text first.1 = "tuple" ∧
      again.2.size = 27 := by
  intro first again
  have hrun : Runs {} ([("tuple", first.1)] ++ logOf common first.2 ++ [("tuple", again.1)])
      again.2 :=
    .intern (.internCommon (.intern .start "tuple")) "tuple"
  have hnames : ([("tuple", first.1)] ++ logOf common first.2 ++ [("tuple", again.1)]).map
      Prod.fst = "tuple" :: common ++ ["tuple"] := by
    simp
  have hfits : Fits ("tuple" :: common ++ ["tuple"]) := fits_of_length (by decide)
  obtain ⟨hequal, hempty, hread, -, -, hsize⟩ := hrun.symbols_faithful (hnames ▸ hfits)
  refine ⟨hfits, (hequal "tuple" _ "tuple" _ (by simp) (by simp)).mpr rfl, ?_, ?_, ?_⟩
  · exact mt (hempty "tuple" first.1 (by simp)).mp (by decide)
  · exact (hread "tuple" first.1 (by simp) [] again.2 .start).2
  · rw [hsize, hnames]
    decide +kernel

end SymbolTable

end Supertypes
