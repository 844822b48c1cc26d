import Supertypes.Proofs.Counterparts
import Supertypes.Proofs.RespelledTexts
import Supertypes.Types.Digest

/-!
# Fixtures with other parameter names

- `ClassDecl.rename` gives the type parameters of a declaration new names, in its list of
  parameters and wherever its texts use them. `ClassDecl.Allows` says which names may be chosen:
  distinct words that the texts use for nothing else.
- `ClassDecl.Allows.alike`: then the texts say the same of the parameters at the same places.
- `WellDeclared.rename`: renamed declarations are in order if the original ones are.
- `Hierarchy.Built.sameExtras_rename`: the shape pass adds edges to the same classes.
- `Hierarchy.ofClasses_rename`: renamed declarations are accepted if the original ones are, and
  all queries have the same answers up to the order of union members.
-/

namespace Supertypes

open Relation

/-! ## Renamed declarations -/

namespace ClassDecl

/-- The texts of the bases and of the tuple shape. -/
def texts (decl : ClassDecl) : List String :=
  decl.bases ++ decl.tuple.toList

/-- The new name of a type parameter; other words stay. -/
def renameWord (σ : String → String) (decl : ClassDecl) (w : String) : String :=
  if w ∈ decl.params then σ w else w

/-- The declaration with new names for its type parameters. -/
def rename (σ : String → String) (decl : ClassDecl) : ClassDecl where
  name := decl.name
  params := decl.params.map σ
  bases := decl.bases.map (Token.respellWords (decl.renameWord σ))
  tuple := decl.tuple.map (Token.respellWords (decl.renameWord σ))

/-- The type parameters may be given these names: they are distinct words, and different from
every word that the texts use for something else. -/
@[mk_iff]
structure Allows (decl : ClassDecl) (σ : String → String) : Prop where
  isWord : ∀ p ∈ decl.params, Token.IsWord (σ p)
  nodup : (decl.params.map σ).Nodup
  unused : ∀ text ∈ decl.texts, ∀ w ∈ Token.words text, w ∉ decl.params → w ∉ decl.params.map σ

instance (decl : ClassDecl) (σ : String → String) : Decidable (decl.Allows σ) :=
  decidable_of_iff _ (allows_iff decl σ).symm

theorem idxOf_map_of_nodup {f : String → String} {xs : List String} (h : (xs.map f).Nodup)
    {x : String} (hx : x ∈ xs) : (xs.map f).idxOf (f x) = xs.idxOf x := by
  have hlt : xs.idxOf x < (xs.map f).length := by
    rw [List.length_map]
    exact List.idxOf_lt_length_of_mem hx
  have hget : (xs.map f)[xs.idxOf x] = f x := by
    rw [List.getElem_map, List.getElem_idxOf]
  rw [← hget, h.idxOf_getElem]

namespace Allows

variable {decl : ClassDecl} {σ : String → String} {text : String}

/-- The new names stand for what the old ones did, and for nothing else. -/
theorem sameWord (h : decl.Allows σ) (htext : text ∈ decl.texts) {w : String}
    (hw : w ∈ Token.words text) :
    SameWord decl.params (decl.params.map σ) w (decl.renameWord σ w) := by
  unfold renameWord
  split
  · rename_i hparam
    exact ⟨(idxOf_map_of_nodup h.nodup hparam).symm, absurd hparam⟩
  · rename_i hother
    refine ⟨?_, fun _ => rfl⟩
    rw [List.idxOf_of_notMem hother, List.idxOf_of_notMem (h.unused text htext w hw hother),
      List.length_map]

theorem sameText (h : decl.Allows σ) (htext : text ∈ decl.texts) :
    SameText (SameWord decl.params (decl.params.map σ)) text
      (Token.respellWords (decl.renameWord σ) text) := by
  intro e hparse
  refine TypeExpr.parse_respell hparse fun w hw hword => ⟨?_, h.sameWord htext hw⟩
  unfold renameWord
  split
  · exact h.isWord w ‹_›
  · exact hword

/-- A renamed declaration says what the original one says. -/
theorem alike (h : decl.Allows σ) : decl.Alike (decl.rename σ) where
  name := rfl
  length := List.length_map _
  bases := by
    show List.Forall₂ _ _ (decl.bases.map _)
    rw [List.forall₂_map_right_iff]
    exact List.forall₂_same.mpr fun text htext => h.sameText (List.mem_append_left _ htext)
  tuple := by
    show Option.Rel _ _ (decl.tuple.map _)
    cases htuple : decl.tuple with
    | none => exact .none
    | some text =>
      exact .some (h.sameText (List.mem_append_right _ (by rw [htuple]; exact .head [])))

end Allows

end ClassDecl

/-! ## Meaning under other names -/

namespace TypeExpr

variable {arity : String → Option Nat} {params params' : List String} {e e' : TypeExpr}
  {text text' : String}

section Respelled

variable (hlength : params.length = params'.length)

include hlength

/-- Names of classes are not renamed. -/
theorem Applies.of_sameWord {w w' : String} {count : Nat} (h : Applies arity params w count)
    (hw : SameWord params params' w w') : w' = w ∧ Applies arity params' w' count := by
  obtain ⟨hother, hclass⟩ := h
  refine ⟨hw.others hother, mt (hw.mem_iff hlength).mpr hother, ?_⟩
  rwa [hw.others hother]

theorem Meaningful.of_respelled (h : Meaningful arity params e)
    (hsame : Respelled (SameWord params params') e e') : Meaningful arity params' e' := by
  induction h generalizing e' with
  | param hparam =>
    obtain @⟨_, w', _, _, hw, hargs⟩ := hsame
    cases hargs
    exact .param ((hw.mem_iff hlength).mp hparam)
  | any =>
    obtain @⟨_, w', _, _, hw, hargs⟩ := hsame
    cases hargs
    -- `Any` may be the name of a parameter
    by_cases hparam : "Any" ∈ params
    · exact .param ((hw.mem_iff hlength).mp hparam)
    · rw [hw.others hparam]
      exact .any
  | never =>
    obtain @⟨_, w', _, _, hw, hargs⟩ := hsame
    cases hargs
    by_cases hparam : "Never" ∈ params
    · exact .param ((hw.mem_iff hlength).mp hparam)
    · rw [hw.others hparam]
      exact .never
  | applied happlies _ ih =>
    obtain @⟨_, w', _, args', hw, hargs⟩ := hsame
    refine .applied (hargs.length_eq ▸ (happlies.of_sameWord hlength hw).2) fun a' ha' => ?_
    obtain ⟨a, ha, haa'⟩ := exists_of_mem_right hargs ha'
    exact ih a ha haa'
  | tuple _ ih =>
    obtain _ | ⟨hitems, -⟩ := hsame
    refine .tuple fun f' hf' => ?_
    obtain ⟨a, ha, haa'⟩ := exists_of_mem_right hitems (List.mem_map_of_mem hf')
    obtain ⟨f, hf, rfl⟩ := List.mem_map.mp ha
    exact ih f hf haa'
  | union _ ih =>
    obtain _ | _ | ⟨hms⟩ := hsame
    refine .union fun m' hm' => ?_
    obtain ⟨m, hm, hmm'⟩ := exists_of_mem_right hms hm'
    exact ih m hm hmm'

theorem MeansInstance.of_respelled (h : MeansInstance arity params e)
    (hsame : Respelled (SameWord params params') e e') : MeansInstance arity params' e' := by
  obtain ⟨happlies, hmean⟩ := h
  obtain @⟨_, w', _, args', hw, hargs⟩ := hsame
  refine .applied (hargs.length_eq ▸ (happlies.of_sameWord hlength hw).2) fun a' ha' => ?_
  obtain ⟨a, ha, haa'⟩ := exists_of_mem_right hargs ha'
  exact (hmean a ha).of_respelled hlength haa'

theorem MeansTuple.of_respelled (h : MeansTuple arity params e)
    (hsame : Respelled (SameWord params params') e e') : MeansTuple arity params' e' := by
  obtain ⟨hmean⟩ := h
  obtain _ | ⟨hitems, -⟩ := hsame
  refine .tuple fun f' hf' => ?_
  obtain ⟨a, ha, haa'⟩ := exists_of_mem_right hitems (List.mem_map_of_mem hf')
  obtain ⟨f, hf, rfl⟩ := List.mem_map.mp ha
  exact (hmean f hf).of_respelled hlength haa'

end Respelled

end TypeExpr

/-! ## Renamed fixtures -/

section Renamed

variable {decls : List ClassDecl} {σ : ClassDecl → String → String}

/-- Other names for the type parameters of each class. -/
def renameParams (σ : ClassDecl → String → String) (decls : List ClassDecl) : List ClassDecl :=
  decls.map fun decl => decl.rename (σ decl)

theorem getElem?_renameParams (σ : ClassDecl → String → String) (decls : List ClassDecl) (n : Nat) :
    (renameParams σ decls)[n]? = decls[n]?.map fun decl : ClassDecl => decl.rename (σ decl) :=
  List.getElem?_map

theorem declaredArity_rename (σ : ClassDecl → String → String) (decls : List ClassDecl) :
    declaredArity (renameParams σ decls) = declaredArity decls := by
  funext name
  have hfind : ((renameParams σ decls).find? (·.name = name)).map (fun decl => decl.params.length) =
      (decls.find? (·.name = name)).map fun decl => decl.params.length := by
    unfold renameParams
    rw [List.find?_map, Option.map_map]
    have hlength : (fun decl : ClassDecl => decl.params.length) ∘
        (fun decl : ClassDecl => decl.rename (σ decl)) = fun decl => decl.params.length := by
      funext decl
      exact List.length_map _
    rw [hlength]
    rfl
  unfold declaredArity
  rw [hfind]

variable (hallows : ∀ decl ∈ decls, decl.Allows (σ decl))

include hallows

theorem SameDeclarations.rename : SameDeclarations decls (renameParams σ decls) where
  left decl hdecl := ⟨_, List.mem_map_of_mem hdecl, (hallows decl hdecl).alike⟩
  right decl' hdecl' := by
    obtain ⟨decl, hdecl, rfl⟩ := List.mem_map.mp hdecl'
    exact ⟨decl, hdecl, (hallows decl hdecl).alike⟩
  length := (List.length_map _).symm

/-- The declared bases are of the same classes. -/
theorem declaredBase_rename (hwell : WellDeclared decls) :
    DeclaredBase (renameParams σ decls) = DeclaredBase decls := by
  -- what the texts of one base spell begins with the same name
  have hheads : ∀ decl ∈ decls, ∀ text ∈ decl.bases, ∃ base args args',
      TypeExpr.parse text = .ok (.name base args) ∧
      TypeExpr.parse (Token.respellWords (decl.renameWord (σ decl)) text) =
        .ok (.name base args') := by
    intro decl hdecl text htext
    obtain ⟨_, hparse, ⟨happlies, -⟩⟩ := hwell.bases_mean decl hdecl text htext
    obtain ⟨_, hparse', hsame⟩ :=
      (hallows decl hdecl).sameText (List.mem_append_left _ htext) _ hparse
    obtain @⟨_, w', _, args', hw, -⟩ := hsame
    obtain ⟨rfl, -⟩ := happlies.of_sameWord (List.length_map _).symm hw
    exact ⟨_, _, args', hparse, hparse'⟩
  funext name base
  refine propext ⟨?_, ?_⟩
  · rintro ⟨_, hmem, rfl, _, htext', args', hparse'⟩
    obtain ⟨decl, hdecl, rfl⟩ := List.mem_map.mp hmem
    obtain ⟨text, htext, rfl⟩ := List.mem_map.mp htext'
    obtain ⟨_, args, _, hparse, hparse₁⟩ := hheads decl hdecl text htext
    obtain ⟨rfl, -⟩ := TypeExpr.name.inj (Except.ok.inj (hparse₁.symm.trans hparse'))
    exact ⟨decl, hdecl, rfl, text, htext, args, hparse⟩
  · rintro ⟨decl, hdecl, rfl, text, htext, args, hparse⟩
    obtain ⟨_, _, args', hparse₁, hparse'⟩ := hheads decl hdecl text htext
    obtain ⟨rfl, -⟩ := TypeExpr.name.inj (Except.ok.inj (hparse₁.symm.trans hparse))
    exact ⟨_, List.mem_map_of_mem hdecl, rfl, _, List.mem_map_of_mem htext, args', hparse'⟩

/-- Renamed declarations are in order. -/
theorem WellDeclared.rename (hwell : WellDeclared decls) :
    WellDeclared (renameParams σ decls) where
  names_nodup := by
    unfold renameParams
    rw [List.map_map]
    exact hwell.names_nodup
  not_builtin decl' hdecl' := by
    obtain ⟨decl, hdecl, rfl⟩ := List.mem_map.mp hdecl'
    exact hwell.not_builtin decl hdecl
  params_nodup decl' hdecl' := by
    obtain ⟨decl, hdecl, rfl⟩ := List.mem_map.mp hdecl'
    exact (hallows decl hdecl).nodup
  bases_mean decl' hdecl' text' htext' := by
    obtain ⟨decl, hdecl, rfl⟩ := List.mem_map.mp hdecl'
    obtain ⟨text, htext, rfl⟩ := List.mem_map.mp htext'
    obtain ⟨e, hparse, hmeans⟩ := hwell.bases_mean decl hdecl text htext
    obtain ⟨e', hparse', hsame⟩ :=
      (hallows decl hdecl).sameText (List.mem_append_left _ htext) e hparse
    rw [declaredArity_rename]
    exact ⟨e', hparse', hmeans.of_respelled (List.length_map _).symm hsame⟩
  acyclic := by
    rw [declaredBase_rename hallows hwell]
    exact hwell.acyclic
  shapes_mean decl' hdecl' text' htext' := by
    obtain ⟨decl, hdecl, rfl⟩ := List.mem_map.mp hdecl'
    obtain ⟨text, htext, rfl⟩ := Option.map_eq_some_iff.mp htext'
    obtain ⟨e, hparse, hmeans⟩ := hwell.shapes_mean decl hdecl text htext
    have hmem : text ∈ decl.texts := List.mem_append_right _ (by rw [htext]; exact .head [])
    obtain ⟨e', hparse', hsame⟩ := (hallows decl hdecl).sameText hmem e hparse
    rw [declaredArity_rename]
    exact ⟨e', hparse', hmeans.of_respelled (List.length_map _).symm hsame⟩

end Renamed

/-! ## Answers -/

namespace Hierarchy

section

variable [Digest TypeData] {decls : List ClassDecl} {σ : ClassDecl → String → String}
  {h h' : Hierarchy} {extra extra' : Nat → List Instance}

omit [Digest TypeData] in
/-- Whether a class needs an edge to `tuple` does not depend on names. -/
theorem NeedsEdge.rename_iff (hbase : DeclaredBase (renameParams σ decls) = DeclaredBase decls)
    {n : Nat} (hbefore : ∀ m < n, (extra m = [] ↔ extra' m = [])) (decl : ClassDecl) :
    NeedsEdge (renameParams σ decls) extra' n (decl.rename (σ decl)) ↔
      NeedsEdge decls extra n decl := by
  constructor
  · rintro ⟨htuple, hpath, hnone⟩
    rw [hbase] at hpath hnone
    refine ⟨?_, hpath, fun m hm decl' hdecl' hextra => ?_⟩
    · rwa [ClassDecl.rename, Option.isSome_map] at htuple
    · exact hnone m hm (decl'.rename (σ decl')) (by rw [getElem?_renameParams, hdecl']; rfl)
        (mt (hbefore m hm).mpr hextra)
  · rintro ⟨htuple, hpath, hnone⟩
    refine ⟨?_, hbase ▸ hpath, fun m hm _ hdecl' hextra => ?_⟩
    · rwa [ClassDecl.rename, Option.isSome_map]
    · rw [getElem?_renameParams] at hdecl'
      obtain ⟨decl', hold, rfl⟩ := Option.map_eq_some_iff.mp hdecl'
      rw [hbase]
      exact hnone m hm decl' hold (mt (hbefore m hm).mp hextra)

/-- The shape pass adds edges to the same classes. -/
theorem Built.sameExtras_rename (hb : Built decls extra h)
    (hb' : Built (renameParams σ decls) extra' h')
    (hallows : ∀ decl ∈ decls, decl.Allows (σ decl)) :
    SameExtras decls (renameParams σ decls) extra extra' := by
  have hbase := declaredBase_rename hallows hb.wellDeclared
  -- by induction on the place, since an edge depends on those of the classes before
  have hplace : ∀ n, ∀ decl, decls[n]? = some decl → (extra n = [] ↔ extra' n = []) := by
    intro n
    induction n using Nat.strong_induction_on with
    | _ n ih =>
      intro decl hdecl
      have hn : n < decls.length := (List.getElem?_eq_some_iff.mp hdecl).1
      have hn' : n < (renameParams σ decls).length := (List.length_map _).symm ▸ hn
      have hbefore : ∀ m < n, (extra m = [] ↔ extra' m = []) := fun m hm =>
        ih m hm decls[m] (List.getElem?_eq_getElem (Nat.lt_trans hm hn))
      rw [← not_iff_not]
      have hiff' := hb'.extra_iff n hn' (decl.rename (σ decl))
        (by rw [getElem?_renameParams, hdecl]; rfl)
      exact (hb.extra_iff n hn decl hdecl).trans
        ((NeedsEdge.rename_iff hbase hbefore decl).symm.trans hiff'.symm)
  intro n n' decl _ hdecl hdecl' hname
  rw [getElem?_renameParams] at hdecl'
  obtain ⟨decl', hold, rfl⟩ := Option.map_eq_some_iff.mp hdecl'
  -- a name is declared at one place
  obtain rfl : n = n' := by
    have hlookup := hb.declares.lookup_declared hdecl
    rw [← show decl'.name = decl.name from hname, hb.declares.lookup_declared hold] at hlookup
    simpa using hlookup.symm
  exact hplace n decl hdecl

/-- The names of type parameters do not matter, only which ones they are: declarations that
differ in them are accepted if the others are. If no more than `Limits.shapes` of them have tuple
shapes, then all queries have the same answers up to the order of union members, as long as the
tables have room for what answering interns. -/
theorem ofClasses_rename (σ : ClassDecl → String → String)
    (hallows : ∀ decl ∈ decls, decl.Allows (σ decl)) (hok : ofClasses decls = .ok h) :
    ∃ h', ofClasses (decls.map fun decl => decl.rename (σ decl)) = .ok h' ∧
      ((decls.filter (·.tuple.isSome)).length ≤ Limits.shapes → ∀ options queries,
        (h.afterAnswers options queries).size ≤ TypeId.maxSlot →
        (h'.afterAnswers options queries).size ≤ TypeId.maxSlot →
        h'.sortedAnswers options queries = h.sortedAnswers options queries) := by
  obtain ⟨extra, hb⟩ := ofClasses_ok hok
  obtain ⟨h', hok'⟩ := ofClasses_of_wellDeclared (hb.wellDeclared.rename hallows)
  obtain ⟨extra', hb'⟩ := ofClasses_ok hok'
  refine ⟨h', hok', fun hfew options queries hroom hroom' => ?_⟩
  have hfew' : ((renameParams σ decls).filter (·.tuple.isSome)).length ≤ Limits.shapes := by
    unfold renameParams
    rw [List.filter_map, List.length_map]
    have htuple : (fun decl : ClassDecl => decl.tuple.isSome) ∘
        (fun decl : ClassDecl => decl.rename (σ decl)) = fun decl => decl.tuple.isSome := by
      funext decl
      exact Option.isSome_map
    rwa [htuple]
  exact (sortedAnswers_eq (hb.corresponds hb' (.rename hallows) (hb.sameExtras_rename hb' hallows)
    hfew hfew') hb.toProper hb'.toProper hb.declares hb'.declares options queries hroom
    hroom').symm

end

/-- A class that hands one of its parameters on to another class. -/
def entryDecls : List ClassDecl :=
  [{ name := "Entry", params := ["K", "V"], bases := ["Cell[K | int]"], tuple := some "(K, V)" },
   { name := "Cell", params := ["T"] }, { name := "int" }]

/-- The names of `Entry` change places, and `Cell` gets one of them too. -/
def swapNames (decl : ClassDecl) (param : String) : String :=
  if decl.name = "Entry" ∧ param = "K" then "V" else "K"

/-- The question is for a union, whose members may come in either order. -/
theorem entry_rename :
    (∀ decl ∈ entryDecls, decl.Allows (swapNames decl)) ∧
    (entryDecls.map fun decl => decl.rename (swapNames decl)) =
      [{ name := "Entry", params := ["V", "K"], bases := ["Cell[V | int]"],
         tuple := some "(V, K)" },
       { name := "Cell", params := ["K"] }, { name := "int" }] ∧
    ∃ h h', ofClasses entryDecls = .ok h ∧
      ofClasses (entryDecls.map fun decl => decl.rename (swapNames decl)) = .ok h' ∧
      h'.sortedAnswers {} [⟨"Entry[Cell[int], int]", "Cell"⟩] =
        h.sortedAnswers {} [⟨"Entry[Cell[int], int]", "Cell"⟩] := by
  have hallows : ∀ decl ∈ entryDecls, decl.Allows (swapNames decl) := by decide +kernel
  have hroom : ∀ ds ∈ [entryDecls, entryDecls.map fun decl => decl.rename (swapNames decl)],
      ((ofClasses ds).toOption.map fun h => decide
        ((h.afterAnswers {} [⟨"Entry[Cell[int], int]", "Cell"⟩]).size ≤ TypeId.maxSlot)) =
          some true := by
    decide +kernel
  obtain ⟨h, hok, hsize⟩ := Option.map_eq_some_iff.mp (hroom _ (.head _))
  obtain ⟨h₁, hok₁, hsize₁⟩ := Option.map_eq_some_iff.mp (hroom _ (.tail _ (.head _)))
  obtain ⟨h', hok', hanswers⟩ := ofClasses_rename swapNames hallows (ok_of_toOption hok)
  obtain rfl : h₁ = h' := Except.ok.inj ((ok_of_toOption hok₁).symm.trans hok')
  exact ⟨hallows, by decide +kernel, h, h₁, ok_of_toOption hok, hok',
    hanswers (by decide) _ _ (of_decide_eq_true hsize) (of_decide_eq_true hsize₁)⟩

end Hierarchy

end Supertypes
