import Mathlib.Tactic.IntervalCases
import ObjectGraph.Proofs.Column.Items
import ObjectGraph.Proofs.Store.Writes

/-!
# Adding to lists

A write to many lists goes through their positions in order. The first write to a list
that the store does not have takes over what the fallbacks have, and later ones find it in
the store. So a list that stands at several positions is taken over once, and grows by
the values of all of them. `Extended` is the store after the positions before some number:
one position more is one step, and the write stops at the first position that fails.
-/

namespace ObjectGraph

namespace Store

section

variable {s t u : Store} {fallbacks : List Store} {lists values : Column} {edge : Edge}
  {n p : Nat} {id : ObjectId}

/-- What a list is before it is added to: the list of the store, or that of the first
fallback that has one. -/
def inherited (s : Store) (fallbacks : List Store) (id : ObjectId) : List Item :=
  ((s.list? id).or (fallbacks.findSome? fun t => t.list? id)).getD []

theorem list_ofStore (s : Store) (fallbacks : List Store) (id : ObjectId) :
    (View.ofStore s fallbacks).list id = s.inherited fallbacks id := by
  rw [View.list, View.list?, View.ofStore, List.findSome?_cons, inherited]
  cases s.list? id <;> rfl

theorem inherited_of_list? {items : List Item} (h : s.list? id = some items) :
    s.inherited fallbacks id = items := by
  rw [inherited, h]
  rfl

theorem inherited_congr (h : t.list? id = s.list? id) :
    t.inherited fallbacks id = s.inherited fallbacks id := by
  rw [inherited, h, inherited]

theorem extendList_of_isList (s : Store) (fallbacks : List Store) (hid : id.isList = true)
    (items : List Item) :
    s.extendList fallbacks id items = .ok (s.putList id (s.inherited fallbacks id ++ items)) := by
  rw [extendList, setList, if_pos hid, list_ofStore]

theorem extendList_of_not_isList (s : Store) (fallbacks : List Store) (hid : id.isList = false)
    (items : List Item) : s.extendList fallbacks id items = .error (.notAList id) := by
  rw [extendList, setList, hid]
  rfl

/-! ### One position after another -/

/-- The values that the positions before `n` give to a list. -/
def added (lists values : Column) (edge : Edge) (n : Nat) (id : ObjectId) : List Item :=
  ((List.range n).filter fun p => lists.get p = .objectId id).flatMap (groupValues edge values)

theorem added_succ (lists values : Column) (edge : Edge) (n : Nat) (id : ObjectId) :
    added lists values edge (n + 1) id = added lists values edge n id ++
      if lists.get n = .objectId id then groupValues edge values n else [] := by
  rw [added, List.range_succ, List.filter_append, List.flatMap_append, ← added]
  by_cases h : lists.get n = .objectId id <;> simp [h]

theorem added_of_forall_ne (h : ∀ p < n, lists.get p ≠ .objectId id) :
    added lists values edge n id = [] := by
  have hnil : (List.range n).filter (fun p => lists.get p = .objectId id) = [] :=
    List.filter_eq_nil_iff.2 fun p hp => by simpa using h p (List.mem_range.1 hp)
  rw [added, hnil, List.flatMap_nil]

/-- The store after the lists at the positions before `n` got the values for these
positions. -/
structure Extended (s : Store) (fallbacks : List Store) (lists values : Column) (edge : Edge)
    (n : Nat) (t : Store) : Prop where
  grown : ∀ id, (∃ p < n, lists.get p = .objectId id) →
    t.list? id = some (s.inherited fallbacks id ++ added lists values edge n id)
  others : ∀ id, (∀ p < n, lists.get p ≠ .objectId id) → t.list? id = s.list? id
  attrs : t.attrs = s.attrs
  dicts : t.dicts = s.dicts

theorem extended_zero (s : Store) (fallbacks : List Store) (lists values : Column) (edge : Edge) :
    s.Extended fallbacks lists values edge 0 s := by
  refine ⟨?_, fun _ _ => rfl, rfl, rfl⟩
  rintro id ⟨p, hp, -⟩
  exact absurd hp (Nat.not_lt_zero p)

/-- Whether the list was among the positions or not, it reads as what it was with the
values that it has got. -/
theorem Extended.inherited (h : s.Extended fallbacks lists values edge n t) (id : ObjectId) :
    t.inherited fallbacks id =
      s.inherited fallbacks id ++ added lists values edge n id := by
  by_cases hid : ∃ p < n, lists.get p = .objectId id
  · exact inherited_of_list? (h.grown id hid)
  · have hne : ∀ p < n, lists.get p ≠ .objectId id := fun p hp heq => hid ⟨p, hp, heq⟩
    rw [inherited_congr (h.others id hne), added_of_forall_ne hne, List.append_nil]

theorem Extended.skip (h : s.Extended fallbacks lists values edge n t)
    (hn : ∀ id, lists.get n ≠ .objectId id) :
    s.Extended fallbacks lists values edge (n + 1) t := by
  refine ⟨fun id hid => ?_, fun id hne => ?_, h.attrs, h.dicts⟩
  · rcases Nat.exists_lt_succ_right.1 hid with hid | heq
    · rw [h.grown id hid, added_succ, if_neg (hn id), List.append_nil]
    · exact absurd heq (hn id)
  · exact h.others id fun p hp => hne p (Nat.lt_succ_of_lt hp)

theorem Extended.put (h : s.Extended fallbacks lists values edge n t)
    (hn : lists.get n = .objectId id) :
    s.Extended fallbacks lists values edge (n + 1)
      (t.putList id (t.inherited fallbacks id ++ groupValues edge values n)) := by
  refine ⟨fun other hother => ?_, fun other hne => ?_, h.attrs, h.dicts⟩
  · rw [list?_putList]
    split
    · rename_i heq
      subst heq
      rw [h.inherited id, added_succ, if_pos hn, List.append_assoc]
    · rename_i hid
      have hn' : lists.get n ≠ .objectId other := fun heq =>
        hid (Item.objectId.inj (hn.symm.trans heq))
      rcases Nat.exists_lt_succ_right.1 hother with hother | heq
      · rw [h.grown other hother, added_succ, if_neg hn', List.append_nil]
      · exact absurd heq hn'
  · have hid : id ≠ other := fun heq => hne n (Nat.lt_succ_self n) (heq ▸ hn)
    rw [list?_putList, if_neg hid]
    exact h.others other fun p hp => hne p (Nat.lt_succ_of_lt hp)

/-! ### The whole write -/

/-- Every position of a column with the values for it. -/
def targets (lists values : Column) (edge : Edge) : List (Item × List Item) :=
  lists.items.mapIdx fun i item => (item, groupValues edge values i)

theorem getElem?_targets (values : Column) (edge : Edge) (h : n < lists.size) :
    (targets lists values edge)[n]? = some (lists.get n, groupValues edge values n) := by
  rw [targets, List.getElem?_mapIdx, Column.getElem?_items h, Option.map_some]

theorem extendLists_eq (s : Store) (fallbacks : List Store) (hlists : edge.parents = lists.size)
    (hvalues : edge.children = values.size) :
    s.extendLists fallbacks lists values edge =
      extendGroups fallbacks s (targets lists values edge) := by
  rw [extendLists, if_neg (by simp [hlists, hvalues]), targets]

/-- A write goes on from where its first part has come. -/
theorem extendGroups_append {pre : List (Item × List Item)}
    (h : extendGroups fallbacks s pre = (.ok (), t)) (post : List (Item × List Item)) :
    extendGroups fallbacks s (pre ++ post) = extendGroups fallbacks t post := by
  induction pre generalizing s with
  | nil =>
      obtain rfl : s = t := congrArg Prod.snd h
      rfl
  | cons target pre ih =>
      rw [extendGroups] at h
      rw [List.cons_append, extendGroups]
      cases hid : target.1.objectId? with
      | none =>
          rw [hid] at h
          exact ih h
      | some id =>
          rw [hid] at h
          cases hext : s.extendList fallbacks id target.2 with
          | ok u =>
              simp only [hext] at h ⊢
              exact ih h
          | error e =>
              simp only [hext] at h
              cases congrArg Prod.fst h

/-- As long as the positions hold lists, the write goes on. -/
theorem exists_extended (s : Store) (fallbacks : List Store) (values : Column) (edge : Edge)
    (hn : n ≤ lists.size) (hlists : ∀ p < n, ∀ id, lists.get p = .objectId id → id.isList = true) :
    ∃ t, extendGroups fallbacks s ((targets lists values edge).take n) = (.ok (), t) ∧
      s.Extended fallbacks lists values edge n t := by
  induction n with
  | zero => exact ⟨s, rfl, extended_zero s fallbacks lists values edge⟩
  | succ n ih =>
      obtain ⟨t, hrun, ht⟩ := ih (Nat.le_of_succ_le hn) fun p hp => hlists p (Nat.lt_succ_of_lt hp)
      rw [List.take_add_one, getElem?_targets values edge hn, Option.toList_some,
        extendGroups_append hrun]
      cases hid : (lists.get n).objectId? with
      | none =>
          refine ⟨t, by rw [extendGroups, hid, extendGroups], ht.skip fun id heq => ?_⟩
          rw [heq] at hid
          cases hid
      | some id =>
          have hget := Item.objectId?_eq_some_iff.1 hid
          have hlist := hlists n (Nat.lt_succ_self n) id hget
          refine ⟨_, ?_, ht.put hget⟩
          simp only [extendGroups, hid, extendList_of_isList t fallbacks hlist]

theorem extendLists_of_lists (s : Store) (fallbacks : List Store)
    (hparents : edge.parents = lists.size) (hchildren : edge.children = values.size)
    (hlists : ∀ p id, lists.get p = .objectId id → id.isList = true) :
    ∃ t, s.extendLists fallbacks lists values edge = (.ok (), t) ∧
      s.Extended fallbacks lists values edge lists.size t := by
  obtain ⟨t, hrun, ht⟩ := exists_extended s fallbacks values edge (Nat.le_refl lists.size)
    fun p _ => hlists p
  rw [List.take_of_length_le (by simp [targets])] at hrun
  exact ⟨t, (extendLists_eq s fallbacks hparents hchildren).trans hrun, ht⟩

theorem extendLists_of_not_list (s : Store) (fallbacks : List Store)
    (hparents : edge.parents = lists.size) (hchildren : edge.children = values.size)
    (hp : lists.get p = .objectId id) (hid : id.isList = false)
    (hbefore : ∀ q < p, ∀ id, lists.get q = .objectId id → id.isList = true) :
    ∃ t, s.extendLists fallbacks lists values edge = (.error (.notAList id), t) ∧
      s.Extended fallbacks lists values edge p t := by
  have hlt := Column.lt_size_of_get hp
  obtain ⟨t, hrun, ht⟩ := exists_extended s fallbacks values edge (Nat.le_of_lt hlt) hbefore
  refine ⟨t, ?_, ht⟩
  obtain ⟨hlength, htarget⟩ := List.getElem?_eq_some_iff.1 (getElem?_targets values edge hlt)
  rw [extendLists_eq s fallbacks hparents hchildren, ← List.take_append_drop p (targets _ _ _),
    extendGroups_append hrun, List.drop_eq_getElem_cons hlength, htarget, hp]
  simp only [extendGroups, Item.objectId?, extendList_of_not_isList t fallbacks hid]

/-- The write comes to its end exactly if all objects are lists. -/
theorem fst_extendLists_eq_ok_iff (hparents : edge.parents = lists.size)
    (hchildren : edge.children = values.size) :
    (s.extendLists fallbacks lists values edge).1 = .ok () ↔
      ∀ p id, lists.get p = .objectId id → id.isList = true := by
  constructor
  · intro hok p
    -- The first object that is not a list would have stopped the write.
    induction p using Nat.strong_induction_on with
    | _ p ih =>
        intro id hp
        by_contra hid
        obtain ⟨t, hrun, -⟩ := extendLists_of_not_list s fallbacks hparents hchildren hp
          (Bool.eq_false_of_not_eq_true hid) ih
        rw [hrun] at hok
        cases hok
  · intro hlists
    obtain ⟨t, hrun, -⟩ := extendLists_of_lists s fallbacks hparents hchildren hlists
    rw [hrun]

theorem extended_of_extendLists (hok : (s.extendLists fallbacks lists values edge).1 = .ok ()) :
    edge.parents = lists.size ∧ edge.children = values.size ∧
      s.Extended fallbacks lists values edge lists.size
        (s.extendLists fallbacks lists values edge).2 := by
  by_cases h : edge.parents ≠ lists.size ∨ edge.children ≠ values.size
  · rw [extendLists, if_pos h] at hok
    cases hok
  · rw [not_or, not_not, not_not] at h
    obtain ⟨t, hrun, ht⟩ := extendLists_of_lists s fallbacks h.1 h.2
      ((fst_extendLists_eq_ok_iff h.1 h.2).1 hok)
    rw [hrun]
    exact ⟨h.1, h.2, ht⟩

theorem groupValues_uniform_one {item : Item} (h : values.items = [item]) :
    groupValues (.uniform 1 1) values 0 = [item] := by
  have hget : values.get 0 = item := by rw [Column.get, h]; rfl
  rw [groupValues, show (Edge.uniform 1 1).range? 0 = some (0, 1) from rfl]
  exact congrArg (fun item => [item]) hget

/-- Adding one item to one list. -/
theorem extendLists_uniform_one (s : Store) (fallbacks : List Store) {item : Item}
    (hlists : lists.items = [.objectId id]) (hvalues : values.items = [item]) :
    s.extendLists fallbacks lists values (.uniform 1 1) = s.after (s.append fallbacks id item) := by
  have hsize : lists.size = 1 := by rw [← Column.length_items, hlists]; rfl
  have hone : values.size = 1 := by rw [← Column.length_items, hvalues]; rfl
  have htargets : targets lists values (.uniform 1 1) = [(.objectId id, [item])] := by
    rw [targets, hlists, List.mapIdx_cons, groupValues_uniform_one hvalues, List.mapIdx_nil]
  have hparents : (Edge.uniform 1 1).parents = lists.size := hsize.symm
  have hchildren : (Edge.uniform 1 1).children = values.size := hone.symm
  rw [extendLists_eq s fallbacks hparents hchildren, htargets]
  simp only [extendGroups, Item.objectId?, append]
  cases s.extendList fallbacks id [item] <;> rfl

/-- A write to lists either refuses an edge that does not fit and leaves the store as it
was, or it gives every list the values of its positions, up to the first position with an
object that is not a list. Adding one item to one list is the smallest such write. -/
theorem extendLists_by_position (s : Store) (fallbacks : List Store) (lists values : Column)
    (edge : Edge) :
    let written := s.extendLists fallbacks lists values edge
    (edge.parents ≠ lists.size ∨ edge.children ≠ values.size →
      written = (.error (.extendMismatch edge.parents edge.children lists.size values.size), s)) ∧
    (edge.parents = lists.size → edge.children = values.size →
      (written.1 = .ok () ↔ ∀ p id, lists.get p = .objectId id → id.isList = true) ∧
      (written.1 = .ok () → s.Extended fallbacks lists values edge lists.size written.2) ∧
      ∀ p id, lists.get p = .objectId id → id.isList = false →
        (∀ q < p, ∀ id, lists.get q = .objectId id → id.isList = true) →
        written.1 = .error (.notAList id) ∧ s.Extended fallbacks lists values edge p written.2) ∧
    ∀ (id : ObjectId) (item : Item) (single one : Column), single.items = [.objectId id] →
      one.items = [item] → s.extendLists fallbacks single one (.uniform 1 1) =
        s.after (s.append fallbacks id item) := by
  intro written
  refine ⟨fun h => if_pos h, fun hparents hchildren =>
    ⟨fst_extendLists_eq_ok_iff hparents hchildren,
    fun hok => (extended_of_extendLists hok).2.2, fun p id hp hid hbefore => ?_⟩,
    fun id item single one => extendLists_uniform_one s fallbacks⟩
  obtain ⟨t, hrun, ht⟩ := extendLists_of_not_list s fallbacks hparents hchildren hp hid hbefore
  simp only [written, hrun]
  exact ⟨trivial, ht⟩

end

namespace Repeated

def birds : ObjectId :=
  ⟨1, 0, .list⟩

def trees : ObjectId :=
  ⟨1, 1, .list⟩

/-- An object that is not a list. -/
def forest : ObjectId :=
  ⟨2, 0, .entity⟩

def below : Store :=
  (∅ : Store).putList birds [.text "owl"]

/-- The birds twice, with a gap between them, and the trees after the forest. -/
def lists : Column :=
  .mixed [.objectId birds, .missing, .objectId birds, .objectId forest, .objectId trees]

def values : Column :=
  .typed .text [some "wren", some "crow", some "kite", none, some "oak"]

def edge : Edge :=
  ⟨[1, 1, 2, 0, 1]⟩

/-- The birds are inherited once and grow twice, and the write stops at the forest. -/
theorem extendLists_birds :
    let written := (∅ : Store).extendLists [below] lists values edge
    written.1 = .error (.notAList forest) ∧
      written.2.list? birds = some [.text "owl", .text "wren", .text "kite", .missing] ∧
      written.2.list? trees = none := by
  intro written
  have hbefore : ∀ q < 3, ∀ id, lists.get q = .objectId id → id.isList = true := by
    intro q hq id h
    have hid : id = birds := by
      interval_cases q <;> cases h <;> rfl
    rw [hid]
    rfl
  have h := ((extendLists_by_position ∅ [below] lists values edge).2.1 rfl rfl).2.2 3 forest rfl rfl
    hbefore
  refine ⟨h.1, ?_, ?_⟩
  · rw [h.2.grown birds ⟨0, by decide, rfl⟩]
    rfl
  · rw [h.2.others trees fun p hp => by interval_cases p <;> decide]
    rfl

end Repeated

end Store

end ObjectGraph
