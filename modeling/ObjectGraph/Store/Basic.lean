import Std.Data.ExtTreeMap
import ObjectGraph.Schema
import ObjectGraph.Store.Dict

/-!
# Stores

A store has three tables: the attributes of objects, the items of lists and the
contents of dicts. An attribute entry may hold a missing item, and it is still an
entry. The tables are ordered by their keys and equal when their look-ups are, so
two stores are equal exactly when they answer every look-up alike.

This module holds look-ups in one store and the unchecked updates; reading
through several stores is in `View`, and the checked writes are in `Write`.
-/

namespace ObjectGraph

/-- The attributes of one object. -/
abbrev AttrTable := Std.ExtTreeMap String Item

/-- Attributes, lists and dicts. -/
structure Store where
  attrs : Std.ExtTreeMap ObjectId AttrTable
  lists : Std.ExtTreeMap ObjectId (List Item)
  dicts : Std.ExtTreeMap ObjectId Dict

namespace Store

def empty : Store :=
  ⟨∅, ∅, ∅⟩

instance : EmptyCollection Store := ⟨empty⟩

def isEmpty (s : Store) : Bool :=
  s.attrs.isEmpty && s.lists.isEmpty && s.dicts.isEmpty

/-- The attributes stored for an object. -/
def localAttrs (s : Store) (id : ObjectId) : AttrTable :=
  s.attrs[id]?.getD ∅

/-- The entry for an attribute. -/
def attr? (s : Store) (id : ObjectId) (name : String) : Option Item :=
  (s.localAttrs id)[name]?

/-- The items of a list. -/
def list? (s : Store) (id : ObjectId) : Option (List Item) :=
  s.lists[id]?

/-- The contents of a dict, with no entries for an unknown dict. -/
def dict (s : Store) (id : ObjectId) : Dict :=
  s.dicts[id]?.getD .empty

/-- The entry for a key of a dict. -/
def dictEntry? (s : Store) (id : ObjectId) (key : Item) : Option Item :=
  (s.dict id).get? key

/-- The number of attribute entries. -/
def tripleCount (s : Store) : Nat :=
  s.attrs.toList.foldr (fun e n => e.2.size + n) 0

def listCount (s : Store) : Nat :=
  s.lists.size

def dictCount (s : Store) : Nat :=
  s.dicts.size

/-- Enters an attribute. -/
def setAttr (s : Store) (id : ObjectId) (name : String) (value : Item) : Store :=
  { s with attrs := s.attrs.insert id ((s.localAttrs id).insert name value) }

/-- Enters the items of a list. -/
def putList (s : Store) (id : ObjectId) (items : List Item) : Store :=
  { s with lists := s.lists.insert id items }

/-- Enters a key of a dict. -/
def putInDict (s : Store) (id : ObjectId) (key value : Item) : Store :=
  { s with dicts := s.dicts.insert id ((s.dict id).set key value) }

theorem attr?_empty (id : ObjectId) (name : String) : empty.attr? id name = none := by
  simp [attr?, localAttrs, empty]

theorem attr?_setAttr (s : Store) (id other : ObjectId) (name otherName : String) (value : Item) :
    (s.setAttr id name value).attr? other otherName =
      if id = other ∧ name = otherName then some value else s.attr? other otherName := by
  by_cases h : id = other
  · subst h
    by_cases hn : name = otherName
    · simp [attr?, setAttr, localAttrs, hn]
    · simp [attr?, setAttr, localAttrs, hn, Std.ExtTreeMap.getElem?_insert]
  · simp [attr?, setAttr, localAttrs, h, Std.ExtTreeMap.getElem?_insert]

theorem list?_putList (s : Store) (id other : ObjectId) (items : List Item) :
    (s.putList id items).list? other = if id = other then some items else s.list? other := by
  simp [list?, putList, Std.ExtTreeMap.getElem?_insert]

theorem dict_putInDict (s : Store) (id other : ObjectId) (key value : Item) :
    (s.putInDict id key value).dict other =
      if id = other then (s.dict id).set key value else s.dict other := by
  by_cases h : id = other <;> simp [dict, putInDict, Std.ExtTreeMap.getElem?_insert, h]

@[simp] theorem list?_setAttr (s : Store) (id other : ObjectId) (name : String) (value : Item) :
    (s.setAttr id name value).list? other = s.list? other := rfl

@[simp] theorem dict_setAttr (s : Store) (id other : ObjectId) (name : String) (value : Item) :
    (s.setAttr id name value).dict other = s.dict other := rfl

@[simp] theorem attr?_putList (s : Store) (id other : ObjectId) (items : List Item)
    (name : String) : (s.putList id items).attr? other name = s.attr? other name := rfl

@[simp] theorem dict_putList (s : Store) (id other : ObjectId) (items : List Item) :
    (s.putList id items).dict other = s.dict other := rfl

@[simp] theorem attr?_putInDict (s : Store) (id other : ObjectId) (key value : Item)
    (name : String) : (s.putInDict id key value).attr? other name = s.attr? other name := rfl

@[simp] theorem list?_putInDict (s : Store) (id other : ObjectId) (key value : Item) :
    (s.putInDict id key value).list? other = s.list? other := rfl

end Store

end ObjectGraph
