import Supertypes.Classes.View

/-!
# The text of types

How types are written for people.

    Root[list[int]]     a class applied to arguments
    (int, *str)         a tuple with a rest element
    (int,)  ()          tuples of one element and of none
    int | str           a union
    T                   a type parameter
    Any                 an Any, with its reason if that is asked for

The members of a union are written in the order in which the tables hold them, that of their
handles. `TypePrinter.sortedText` writes them in the order of their texts instead: it is the text
of a type up to the order of union members, and does not depend on the handles that the type is
made of.
-/

namespace Supertypes

/-- What a type is written against, and whether an `Any` is written with its reason
(`TypeFormatter`). -/
structure TypePrinter where
  types : Interner
  view : ClassView
  reasons : Bool := false

namespace TypePrinter

/-- Put a text into its place in an ascending list. -/
def insertText (s : String) : List String → List String
  | [] => [s]
  | first :: rest => if s ≤ first then s :: first :: rest else first :: insertText s rest

/-- The texts in ascending order. -/
def sortTexts (texts : List String) : List String :=
  texts.foldr insertText []

/-- The name of a class. -/
def className (p : TypePrinter) (c : ClassId) : String :=
  (p.view.name? c).getD s!"<class {c.number}>"

/-- An `Any`. -/
def anyText (p : TypePrinter) (reason : AnyReason) : String :=
  if p.reasons then s!"Any ({reason.text})" else "Any"

/-- A class with the texts of its arguments (`write_instance`). -/
def applied (p : TypePrinter) (c : ClassId) (args : List String) : String :=
  if args.isEmpty then p.className c
  else p.className c ++ "[" ++ ", ".intercalate args ++ "]"

/-- A tuple with the texts of its items (`write_elements` in parentheses). -/
def tupleText (elements : List (Element String)) : String :=
  let texts := elements.map fun e => if e.isRest then "*" ++ e.item else e.item
  match texts with
  | [single] => "(" ++ single ++ ",)"
  | _ => "(" ++ ", ".intercalate texts ++ ")"

variable [Digest TypeData]

/-- The text of a type that nests at most `depth` levels (`write_type`). The texts of the members
of a union stand in the order that `arrange` puts them in. -/
def typeText (p : TypePrinter) (arrange : List String → List String) : Nat → TypeId → String
  | 0, _ => ""
  | depth + 1, id =>
    match p.types.lookup id with
    | none => "<invalid>"
    | some .never => "Never"
    | some (.any reason) => p.anyText reason
    | some (.inst i) => p.applied i.head ((p.types.args i).map (p.typeText arrange depth))
    | some (.param param) => param.name
    | some (.tuple list) =>
      tupleText ((p.types.elementList list).map (Element.map (p.typeText arrange depth)))
    | some (.union list) =>
      " | ".intercalate (arrange ((p.types.typeList list).map (p.typeText arrange depth)))

/-- No type nests deeper than there are structures, since each is made of earlier ones. -/
def depth (p : TypePrinter) : Nat :=
  p.types.size + 1

/-- The text of a type (`format`). -/
def text (p : TypePrinter) (id : TypeId) : String :=
  p.typeText (fun texts => texts) p.depth id

/-- The text of an instance (`format_instance`). -/
def instanceText (p : TypePrinter) (i : Instance) : String :=
  p.applied i.head ((p.types.args i).map p.text)

/-- The text of a type with the members of each union in the order of their texts. -/
def sortedText (p : TypePrinter) (id : TypeId) : String :=
  p.typeText sortTexts p.depth id

/-- The text of an instance with the members of each union in the order of their texts. -/
def sortedInstanceText (p : TypePrinter) (i : Instance) : String :=
  p.applied i.head ((p.types.args i).map p.sortedText)

end TypePrinter

end Supertypes
