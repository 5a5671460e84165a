import ClientForge.Ordered
import Mathlib.Data.List.Nodup

/-!
# Tables without repeated names

A table is a list of entries, and writing to it walks that list. While no name occurs
twice, look-up and membership say the same, and writing a whole second table has a
plain description: the names of the first table keep their places and take the new
values, the names that are only in the second one follow in their own order.
-/

namespace ClientForge.Table

variable {α : Type} {name : String} {x : α} {t u : Table α}

@[simp] theorem names_nil : names ([] : Table α) = [] := rfl

@[simp] theorem names_cons (e : String × α) (t : Table α) : names (e :: t) = e.1 :: names t := rfl

@[simp] theorem names_append (t u : Table α) : names (t ++ u) = names t ++ names u := by
  simp [names]

theorem mem_names_of_mem {e : String × α} (h : e ∈ t) : e.1 ∈ names t :=
  List.mem_map_of_mem h

theorem get?_eq_none_iff : get? name t = none ↔ name ∉ names t := by
  induction t with
  | nil => simp [get?]
  | cons e rest ih =>
      by_cases h : e.1 = name
      · simp [get?, h]
      · simp [get?, h, ih, Ne.symm h]

@[simp] theorem has_iff : has name t = true ↔ name ∈ names t := by
  rw [has, Option.isSome_iff_ne_none, ne_eq, get?_eq_none_iff, not_not]

@[simp] theorem has_eq_false_iff : has name t = false ↔ name ∉ names t := by
  rw [← has_iff, Bool.not_eq_true]

theorem mem_of_get?_eq_some (h : get? name t = some x) : (name, x) ∈ t := by
  induction t with
  | nil => simp [get?] at h
  | cons e rest ih =>
      by_cases he : e.1 = name
      · obtain rfl : e.2 = x := by simpa [get?, he] using h
        subst he
        exact List.mem_cons_self
      · exact List.mem_cons_of_mem _ (ih (by simpa [get?, he] using h))

theorem get?_eq_some_of_mem (hn : (names t).Nodup) {e : String × α} (h : e ∈ t) :
    get? e.1 t = some e.2 := by
  induction t with
  | nil => cases h
  | cons f rest ih =>
      rw [names_cons, List.nodup_cons] at hn
      rcases List.mem_cons.mp h with rfl | h
      · simp [get?]
      · have hne : f.1 ≠ e.1 := fun hf => hn.1 (hf ▸ mem_names_of_mem h)
        simpa [get?, hne] using ih hn.2 h

theorem mem_put {e : String × α} (h : e ∈ put name x t) : e ∈ t ∨ e = (name, x) := by
  induction t with
  | nil => exact .inr (List.mem_singleton.mp h)
  | cons f rest ih =>
      by_cases hf : f.1 = name
      · rcases List.mem_cons.mp (by simpa [put, hf] using h) with h | h
        · exact .inr h
        · exact .inl (List.mem_cons_of_mem _ h)
      · rcases List.mem_cons.mp (by simpa only [put, hf, if_false] using h) with h | h
        · exact .inl (h ▸ List.mem_cons_self)
        · exact (ih h).imp_left (List.mem_cons_of_mem _)

/-- Writing under a name that is there keeps all names and places. -/
theorem put_of_mem (hn : (names t).Nodup) (h : name ∈ names t) (x : α) :
    put name x t = t.map fun e => (e.1, if e.1 = name then x else e.2) := by
  induction t with
  | nil => simp at h
  | cons e rest ih =>
      rw [names_cons, List.nodup_cons] at hn
      by_cases he : e.1 = name
      · subst he
        have others : ∀ f ∈ rest, (f.1, if f.1 = e.1 then x else f.2) = f := by
          intro f hf
          rw [if_neg]
          exact fun hfe => hn.1 (hfe ▸ mem_names_of_mem hf)
        simp [put, List.map_congr_left others]
      · have hrest : name ∈ names rest := by
          rcases List.mem_cons.mp h with h | h
          · exact absurd h.symm he
          · exact h
        simp [put, he, ih hn.2 hrest]

/-- Writing under a new name adds an entry at the end. -/
theorem put_of_not_mem (h : name ∉ names t) (x : α) : put name x t = t ++ [(name, x)] := by
  induction t with
  | nil => rfl
  | cons e rest ih =>
      rw [names_cons, List.mem_cons, not_or] at h
      simp [put, Ne.symm h.1, ih h.2]

theorem names_put_of_mem (hn : (names t).Nodup) (h : name ∈ names t) (x : α) :
    names (put name x t) = names t := by
  rw [put_of_mem hn h, names, List.map_map]
  rfl

theorem nodup_names_put (hn : (names t).Nodup) (name : String) (x : α) :
    (names (put name x t)).Nodup := by
  by_cases h : name ∈ names t
  · rw [names_put_of_mem hn h]
    exact hn
  · rw [put_of_not_mem h, names_append]
    exact hn.append (List.nodup_singleton name) (by simpa using h)

/-- A table laid over another: what the other one names stays in its place with the new
value, what only the new one names follows in its order. -/
def overlay (t u : Table α) : Table α :=
  t.map (fun e => (e.1, (get? e.1 u).getD e.2)) ++ u.filter fun e => !has e.1 t

theorem names_overlay (t u : Table α) :
    names (overlay t u) = names t ++ (names u).filter fun n => !has n t := by
  simp [overlay, names, List.filter_map, Function.comp_def]

theorem nodup_names_overlay (ht : (names t).Nodup) (hu : (names u).Nodup) :
    (names (overlay t u)).Nodup := by
  rw [names_overlay, List.nodup_append]
  refine ⟨ht, hu.filter _, ?_⟩
  intro a ha b hb hab
  rw [← hab, List.mem_filter] at hb
  simp [has_iff.mpr ha] at hb

/-- The first write of a table laid over another can be done before the others. -/
theorem overlay_put (ht : (names t).Nodup) (hname : name ∉ names u) (x : α) :
    overlay (put name x t) u = overlay t ((name, x) :: u) := by
  have unseen : get? name u = none := get?_eq_none_iff.mpr hname
  have rest : u.filter (fun e => !has e.1 (put name x t)) = u.filter fun e => !has e.1 t := by
    apply List.filter_congr
    intro e he
    have hne : e.1 ≠ name := fun h => hname (h ▸ mem_names_of_mem he)
    simp [has, get?_put_of_ne hne]
  by_cases h : name ∈ names t
  · have values : ∀ e ∈ t, (get? e.1 u).getD (if e.1 = name then x else e.2) =
        (get? e.1 ((name, x) :: u)).getD e.2 := by
      intro e _
      by_cases he : e.1 = name
      · simp [get?, he, unseen]
      · simp [get?, he, Ne.symm he]
    rw [overlay, overlay, rest, put_of_mem ht h, List.map_map,
      List.filter_cons_of_neg (by simpa using h)]
    congr 1
    exact List.map_congr_left fun e he => by simpa using values e he
  · have values : t.map (fun e => (e.1, (get? e.1 u).getD e.2)) =
        t.map fun e => (e.1, (get? e.1 ((name, x) :: u)).getD e.2) := by
      apply List.map_congr_left
      intro e he
      have hne : name ≠ e.1 := fun hn => h (hn ▸ mem_names_of_mem he)
      simp [get?, hne]
    rw [overlay, overlay, rest, put_of_not_mem h, List.filter_cons_of_pos (by simpa using h),
      ← values]
    simp [unseen]

/-- Writing all entries of a table one after another lays it over the first one. -/
theorem update_eq_overlay (ht : (names t).Nodup) (hu : (names u).Nodup) :
    update t u = overlay t u := by
  induction u generalizing t with
  | nil => simp [update, overlay, get?]
  | cons e rest ih =>
      rw [names_cons, List.nodup_cons] at hu
      calc update t (e :: rest) = update (put e.1 e.2 t) rest := rfl
        _ = overlay (put e.1 e.2 t) rest := ih (nodup_names_put ht e.1 e.2) hu.2
        _ = overlay t (e :: rest) := overlay_put ht hu.1 e.2

theorem nodup_names_update (ht : (names t).Nodup) (u : Table α) : (names (update t u)).Nodup := by
  induction u generalizing t with
  | nil => exact ht
  | cons e rest ih => exact ih (nodup_names_put ht e.1 e.2)

theorem nodup_names_ofList (entries : List (String × α)) : (names (ofList entries)).Nodup :=
  nodup_names_update (t := []) List.nodup_nil entries

/-- Entries make the table that they are exactly if no name occurs twice among them. -/
theorem ofList_eq_self_iff {entries : Table α} :
    ofList entries = entries ↔ (names entries).Nodup := by
  constructor
  · intro same
    exact same ▸ nodup_names_ofList entries
  · intro once
    rw [ofList, update_eq_overlay (t := []) List.nodup_nil once, overlay, List.map_nil,
      List.nil_append, List.filter_eq_self]
    exact fun _ _ => rfl

theorem get?_update_of_notMem (h : name ∉ names u) (t : Table α) :
    get? name (update t u) = get? name t := by
  induction u generalizing t with
  | nil => rfl
  | cons e rest ih =>
      rw [names_cons, List.mem_cons, not_or] at h
      exact (ih h.2 _).trans (get?_put_of_ne h.1 e.2 t)

/-- What is written last stands in the table. -/
theorem get?_update_of_some (hu : (names u).Nodup) (h : get? name u = some x) (t : Table α) :
    get? name (update t u) = some x := by
  induction u generalizing t with
  | nil => cases h
  | cons e rest ih =>
      rw [names_cons, List.nodup_cons] at hu
      by_cases he : e.1 = name
      · subst he
        obtain rfl : e.2 = x := by simpa [get?] using h
        exact (get?_update_of_notMem hu.1 _).trans (get?_put_self e.1 e.2 t)
      · exact ih hu.2 (by simpa [get?, he] using h) _

end ClientForge.Table
