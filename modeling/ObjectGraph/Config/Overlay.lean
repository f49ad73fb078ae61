import ObjectGraph.Config.Setting

/-!
# Deep merging

A later table is put over an earlier one name by name, and a table over a table in the same
way, so that it hides no more than the names it sets. Any other value stands.
-/

namespace ObjectGraph.Setting

mutual

/-- A later value over an earlier one. Two tables are merged, and otherwise the
later value stands. -/
def overlay : Setting → Setting → Setting
  | .table later, .table earlier => .table (overlayTable later earlier)
  | later, _ => later

/-- A later table over an earlier one, name by name. -/
def overlayTable : Settings → Settings → Settings
  | [], earlier => earlier
  | (key, value) :: later, earlier =>
    let value :=
      match earlier.lookup key with
      | some old => overlay value old
      | none => value
    put key value (overlayTable later earlier)

end

end ObjectGraph.Setting
