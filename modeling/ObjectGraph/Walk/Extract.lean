import ObjectGraph.Walk.Run

/-!
# Extraction

`extract` copies everything that a schema lets one reach from the ids of a column
into a new store, under the same ids.
-/

namespace ObjectGraph

/-- The objects of a column in order: its ids that are not schemas. -/
def Column.roots (c : Column) : List ObjectId :=
  c.items.filterMap Item.child?

/-- The walk that copies all that it reaches. -/
def Walk.deep (data : View) (schemas : Option View) : Walk :=
  ⟨data, schemas, id, false⟩

/-- What a schema reaches from the objects of a column. The schema is looked up in
the schema view, if one is given, and in the data view otherwise. -/
def extract (data : View) (schemas : Option View) (objects : Column) (schema : Item) :
    Except Error Store :=
  (Walk.deep data schemas).run objects.roots schema

end ObjectGraph
