import AnnaToolchain.SymbolTable

/-! # Maps and their entries

    The words of an image, its symbols and the words that wait for a label
    are kept in maps.  A map is made up of its entries, which have different
    keys. -/

namespace AnnaToolchain

variable {α β : Type} {cmp : α → α → Ordering} [Std.TransCmp cmp]

/-- No key has two entries. -/
theorem pairwise_toList (t : Std.ExtTreeMap α β cmp) :
    t.toList.Pairwise fun e e' => e.1 ≠ e'.1 := by
  refine t.distinct_keys_toList.imp fun {e e'} hne heq => hne ?_
  rw [heq]
  exact Std.ReflCmp.compare_self

/-- Entries go into a map one after another. -/
theorem insertMany_append (t : Std.ExtTreeMap α β cmp) (entries entries' : List (α × β)) :
    t.insertMany (entries ++ entries') = (t.insertMany entries).insertMany entries' := by
  induction entries generalizing t with
  | nil => rw [List.nil_append, Std.ExtTreeMap.insertMany_nil]
  | cons entry entries ih =>
    rw [List.cons_append, Std.ExtTreeMap.insertMany_cons, ih, Std.ExtTreeMap.insertMany_cons]

/-- Entries with different keys make up a map with these entries and no others. -/
theorem getElem?_insertMany_eq_some_iff [Std.LawfulEqCmp cmp] {entries : List (α × β)}
    (hdistinct : entries.Pairwise fun e e' => e.1 ≠ e'.1) {k : α} {v : β} :
    ((∅ : Std.ExtTreeMap α β cmp).insertMany entries)[k]? = some v ↔ (k, v) ∈ entries := by
  classical
  have hkeys : entries.Pairwise fun e e' => ¬ cmp e.1 e'.1 = .eq :=
    hdistinct.imp fun hne heq => hne (Std.LawfulEqCmp.eq_of_compare heq)
  have hfound : ∀ {v}, (k, v) ∈ entries →
      ((∅ : Std.ExtTreeMap α β cmp).insertMany entries)[k]? = some v := fun hmem =>
    Std.ExtTreeMap.getElem?_insertMany_list_of_mem Std.ReflCmp.compare_self hkeys hmem
  refine ⟨fun h => ?_, hfound⟩
  by_cases hmem : k ∈ entries.map Prod.fst
  · obtain ⟨⟨k', v'⟩, hentry, rfl⟩ := List.mem_map.mp hmem
    rw [hfound hentry] at h
    rwa [← Option.some.inj h]
  · -- no entry has this key
    have hnot : (entries.map Prod.fst).contains k = false := by
      rwa [List.contains_eq_mem, decide_eq_false_iff_not]
    rw [Std.ExtTreeMap.getElem?_insertMany_list_of_contains_eq_false hnot,
      Std.ExtTreeMap.getElem?_empty] at h
    cases h

/-- The entries of a map make up the map. -/
theorem insertMany_toList [Std.LawfulEqCmp cmp] (t : Std.ExtTreeMap α β cmp) :
    (∅ : Std.ExtTreeMap α β cmp).insertMany t.toList = t := by
  apply Std.ExtTreeMap.ext_getElem?
  intro k
  apply Option.ext
  intro v
  rw [getElem?_insertMany_eq_some_iff (pairwise_toList t),
    Std.ExtTreeMap.mem_toList_iff_getElem?_eq_some]

end AnnaToolchain
