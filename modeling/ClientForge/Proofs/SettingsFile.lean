import ClientForge.Toml.Document
import ClientForge.Value.Display
import Mathlib.Data.List.Nodup

/-!
# Names in settings files

No table of a settings file has a name twice, however deep it stands: a new name is only
written where it is missing, and where a table or a list is changed its name keeps its
place.
-/

namespace ClientForge

namespace Value

variable {es : Entries} {name : String} {v w : Value}

/-- The keys of some entries. -/
def Entries.keys (es : Entries) : List Value := es.map (·.1)

theorem Entries.keys_put {key : Value} (there : (get? key es).isSome) (v : Value) :
    (put key v es).keys = es.keys := by
  induction es with
  | nil => cases there
  | cons e rest ih =>
      by_cases same : same e.1 key = true
      · simp [put, keys, same]
      · have below : (get? key rest).isSome := by
          rwa [get?, List.find?_cons_of_neg (by simpa using same)] at there
        have kept : (put key v rest).map (·.1) = rest.map (·.1) := ih below
        simp [put, keys, same, kept]

theorem Entries.put_of_missing {key : Value} (missing : get? key es = none) (v : Value) :
    put key v es = es ++ [(key, v)] := by
  induction es with
  | nil => rfl
  | cons e rest ih =>
      have differs : ¬ same e.1 key = true :=
        List.find?_eq_none.mp (Option.map_eq_none_iff.mp missing) e List.mem_cons_self
      have below : get? key rest = none := by
        rwa [get?, List.find?_cons_of_neg (by simpa using differs)] at missing
      simp [put, differs, ih below]

/-- What stands in some entries after one was written. -/
theorem Entries.mem_put {key : Value} {e : Value × Value} (h : e ∈ put key v es) :
    e ∈ es ∨ e.2 = v := by
  induction es with
  | nil => exact .inr (congrArg Prod.snd (List.mem_singleton.mp h))
  | cons f rest ih =>
      rw [put] at h
      split at h
      · rcases List.mem_cons.mp h with rfl | h
        · exact .inr rfl
        · exact .inl (List.mem_cons_of_mem _ h)
      · rcases List.mem_cons.mp h with rfl | h
        · exact .inl List.mem_cons_self
        · exact (ih h).imp_left (List.mem_cons_of_mem _)

/-- A value whose tables, at any depth, have their entries under different names. -/
inductive Tidy : Value → Prop
  | table {es : Entries} (names : List String) (keys : es.keys = names.map .str)
      (distinct : names.Nodup) (values : ∀ e ∈ es, Tidy e.2) : Tidy (.map es)
  | list {items : List Value} (each : ∀ v ∈ items, Tidy v) : Tidy (.list items)
  | plain {v : Value} (h : Toml.isContainer v = false) : Tidy v

namespace Tidy

theorem nil : Tidy (.map []) := .table [] rfl List.nodup_nil nofun

theorem exists_names (h : Tidy (.map es)) :
    ∃ names : List String, es.keys = names.map .str ∧ names.Nodup := by
  cases h with
  | table names keys distinct _ => exact ⟨names, keys, distinct⟩
  | plain h => cases h

theorem key_of (h : Tidy (.map es)) : ∀ e ∈ es, e.1 = .str e.1.text := by
  obtain ⟨names, keys, -⟩ := h.exists_names
  intro e he
  have key : e.1 ∈ names.map Value.str := keys ▸ List.mem_map_of_mem he
  obtain ⟨name, -, named⟩ := List.mem_map.mp key
  rw [← named, text]

theorem value_of (h : Tidy (.map es)) : ∀ e ∈ es, Tidy e.2 := by
  cases h with
  | table _ _ _ values => exact values
  | plain h => cases h

theorem item_of {items : List Value} (h : Tidy (.list items)) : ∀ v ∈ items, Tidy v := by
  cases h with
  | list each => exact each
  | plain h => cases h

/-- What stands under a name of a table. -/
theorem of_text? (h : Tidy (.map es)) (found : Entries.text? name es = some v) : Tidy v := by
  obtain ⟨e, there, rfl⟩ := Option.map_eq_some_iff.mp found
  exact h.value_of e (List.mem_of_find?_eq_some there)

/-- A table with a new name at its end. -/
theorem append (h : Tidy (.map es)) (missing : Entries.text? name es = none) (hv : Tidy v) :
    Tidy (.map (es ++ [(.str name, v)])) := by
  obtain ⟨names, keys, distinct⟩ := h.exists_names
  have new : name ∉ names := by
    intro there
    have key : Value.str name ∈ es.keys := keys ▸ List.mem_map_of_mem there
    obtain ⟨e, he, same⟩ := List.mem_map.mp key
    have differs := List.find?_eq_none.mp (Option.map_eq_none_iff.mp missing) e he
    exact differs (by simp [same, Value.same])
  refine .table (names ++ [name]) ?_ (distinct.append (List.nodup_singleton _) (by simpa)) ?_
  · rw [Entries.keys, List.map_append, ← Entries.keys, keys]
    simp
  · exact List.forall_mem_append.mpr ⟨h.value_of, by simpa using hv⟩

/-- Writing under a name keeps all others in their places. -/
theorem put (h : Tidy (.map es)) (hv : Tidy v) : Tidy (.map (es.put (.str name) v)) := by
  cases there : es.get? (.str name) with
  | none =>
      rw [Entries.put_of_missing there]
      exact h.append there hv
  | some w =>
      obtain ⟨names, keys, distinct⟩ := h.exists_names
      refine .table names (by rw [Entries.keys_put (by simp [there]), keys]) distinct ?_
      intro e he
      rcases Entries.mem_put he with old | new
      · exact h.value_of e old
      · exact new ▸ hv

end Tidy

end Value

namespace Toml

open ClientForge.Value

variable {α β : Type} {P : α → Prop} {Q : β → Prop} {es : Entries} {v : Value}

/-- Whether everything that a search can find has a property. -/
def Finds (P : α → Prop) (o : Option α) : Prop := ∀ a, o = some a → P a

namespace Finds

theorem none : Finds P none := nofun

theorem some {a : α} (h : P a) : Finds P (some a) := by
  rintro _ ⟨⟩
  exact h

theorem ite {o o' : Option α} {c : Prop} [Decidable c] (h : Finds P o) (h' : Finds P o') :
    Finds P (if c then o else o') := by
  split
  · exact h
  · exact h'

theorem map {o : Option α} {g : α → β} (each : ∀ a, o = .some a → Q (g a)) :
    Finds Q (o.map g) := by
  intro b found
  obtain ⟨a, there, rfl⟩ := Option.map_eq_some_iff.mp found
  exact each a there

theorem bind {o : Option α} {g : α → Option β} (first : Finds P o)
    (rest : ∀ a, P a → Finds Q (g a)) : Finds Q (o >>= g) := by
  intro b found
  obtain ⟨a, there, found⟩ := Option.bind_eq_some_iff.mp found
  exact rest a (first a there) b found

/-- What is searched for first need not matter. -/
theorem after {o : Option α} {g : α → Option β} (rest : ∀ a, Finds Q (g a)) :
    Finds Q (o >>= g) :=
  bind (P := fun _ => True) (fun _ _ => trivial) fun a _ => rest a

end Finds

/-- Whether everything that a reading can give has a property. -/
def Yields (P : α → Prop) (x : Except Fault α) : Prop := ∀ a, x = .ok a → P a

namespace Yields

theorem ok {a : α} (h : P a) : Yields P (.ok a) := by
  rintro _ ⟨⟩
  exact h

theorem error (f : Fault) : Yields P (.error f) := nofun

theorem found {o : Option α} (h : Finds P o) : Yields P (found o) := by
  intro a given
  cases o with
  | none => cases given
  | some b =>
      obtain rfl : b = a := Except.ok.inj given
      exact h b rfl

theorem bind {x : Except Fault α} {g : α → Except Fault β} (first : Yields P x)
    (rest : ∀ a, P a → Yields Q (g a)) : Yields Q (x >>= g) := by
  intro b given
  cases x with
  | error f => cases given
  | ok a => exact rest a (first a rfl) b given

/-- What is read first need not matter. -/
theorem after {x : Except Fault α} {g : α → Except Fault β} (rest : ∀ a, Yields Q (g a)) :
    Yields Q (x >>= g) :=
  bind (P := fun _ => True) (fun _ _ => trivial) fun a _ => rest a

end Yields

/-! ## Changing tables -/

/-- Whether entries are those of a tidy table. -/
abbrev AreTidy (es : Entries) : Prop := Tidy (.map es)

theorem tidy_writeNew {name : String} (h : AreTidy es) (hv : Tidy v) :
    Finds AreTidy (writeNew name v es) := by
  unfold writeNew
  split
  · exact .none
  next missing =>
    rw [Entries.hasText, Bool.not_eq_true, Option.isSome_eq_false_iff,
      Option.isNone_iff_eq_none] at missing
    exact .some (h.append missing hv)

theorem tidy_appendTable {name : String} (h : AreTidy es) :
    Finds AreTidy (appendTable name es) := by
  have empty : ∀ v ∈ [Value.map []], Tidy v := by simpa using Tidy.nil
  unfold appendTable
  split
  next missing => exact .some (h.append missing (.list empty))
  next items there =>
    have each := (h.of_text? there).item_of
    exact .some (h.put (.list (List.forall_mem_append.mpr ⟨each, empty⟩)))
  · exact .none

/-- Changing a table somewhere below leaves every table tidy if the change itself does. -/
theorem tidy_changeTable {intoLists : Bool} {f : Entries → Option Entries}
    (change : ∀ es, AreTidy es → Finds AreTidy (f es)) (key : Key) (h : AreTidy es) :
    Finds AreTidy (changeTable intoLists f key es) := by
  induction key generalizing es with
  | nil => exact change es h
  | cons part rest ih =>
      unfold changeTable
      split
      · exact .map fun inner below => h.put (ih .nil inner below)
      next inner there =>
        exact .map fun inner' below => h.put (ih (h.of_text? there) inner' below)
      next items there =>
        split
        next inner last =>
          have each := (h.of_text? there).item_of
          have inside : AreTidy inner := each _ (List.mem_of_getLast? last)
          refine .map fun inner' below => h.put (.list (List.forall_mem_append.mpr ⟨?_, ?_⟩))
          · exact fun v hv => each v ((List.dropLast_sublist items).subset hv)
          · simpa using ih inside inner' below
        · exact .none
      · exact .none

/-! ## Reading values -/

theorem tidy_based? (cs : List Char) : Finds (fun r => Tidy r.1) (based? cs) := by
  have number {base : Option Nat} {digits : Nat → List Char} {rest : Nat → List Char} :
      Finds (fun r : Value × List Char => Tidy r.1) (base >>= fun b =>
        Text.numeral? b (digits b) >>= fun n => pure (.int n, rest b)) :=
    .after fun _ => .after fun _ => .some (.plain rfl)
  unfold based?
  split
  · dsimp only
    exact .ite number (.ite number (.ite number number))
  · exact .none

theorem tidy_decimal? (cs : List Char) :
    Finds (fun r => ∀ v, r.1 = some v → Tidy v) (decimal? cs) := by
  have integer {digits : Option Int} : ∀ v, digits.map Value.int = some v → Tidy v :=
    Finds.map fun _ _ => .plain rfl
  have floating {x} : ∀ v, some (Value.float x) = some v → Tidy v := Finds.some (.plain rfl)
  unfold decimal?
  dsimp only
  exact .ite .none (.ite (.some integer) (.map fun _ _ => floating))

theorem tidy_special? (cs : List Char) : Finds (fun r => Tidy r.1) (special? cs) :=
  .ite (.some (.plain rfl)) (.ite (.some (.plain rfl)) .none)

theorem tidy_truth? (cs : List Char) : Finds (fun r => Tidy r.1) (truth? cs) :=
  .ite (.some (.plain rfl)) (.ite (.some (.plain rfl)) .none)

theorem tidy_day? (cs : List Char) :
    Finds (fun r => ∀ v, r.1 = some v → Tidy v) (day? cs) := by
  have valid {v : Value} {c : Prop} [Decidable c] (h : Tidy v) :
      Finds Tidy (if c then some v else none) := .ite (.some h) .none
  refine .after fun read => ?_
  dsimp only
  split
  · exact .some (valid (.plain rfl))
  · exact .some (valid (.plain rfl))

theorem tidy_number (cs : List Char) : Yields (fun r => Tidy r.1) (number cs) := by
  unfold number
  split
  next r read => exact .ok (tidy_based? cs r read)
  · split
    next v rest read => exact .ok (tidy_decimal? cs _ read v rfl)
    · exact .error _
    · exact .found (tidy_special? cs)

theorem tidy_scalar (cs : List Char) : Yields (fun r => Tidy r.1) (scalar cs) := by
  unfold scalar
  split
  · exact .error _
  · split
    · exact .found (.map fun _ _ => .plain rfl)
    · split
      next r read => exact .ok (tidy_truth? _ r read)
      · split
        next v rest read => exact .found (.map fun w there => tidy_day? _ _ read w there)
        · split
          · exact .ok (.plain rfl)
          · exact tidy_number _

theorem tidy_inline_write {t : InlineTable} {key : Key} (h : AreTidy t.entries) (hv : Tidy v) :
    Finds (fun t' => AreTidy t'.entries) (t.write key v) := by
  unfold InlineTable.write
  dsimp only
  refine .ite .none (.after fun name => .bind (P := AreTidy) ?_ fun entries tidy => .some tidy)
  exact tidy_changeTable (fun _ inner => tidy_writeNew inner hv) _ h

/-- Values, lists and inline tables are tidy however deep they are read. -/
theorem tidy_value (fuel : Nat) :
    (∀ cs, Yields (fun r => Tidy r.1) (value fuel cs)) ∧
    (∀ done cs, (∀ v ∈ done, Tidy v) → Yields (fun r => Tidy r.1) (items fuel done cs)) ∧
    (∀ t cs, AreTidy t.entries → Yields (fun r => Tidy r.1) (pairs fuel t cs)) := by
  induction fuel with
  | zero => exact ⟨fun _ => .error _, fun _ _ _ => .error _, fun _ _ _ => .error _⟩
  | succ fuel ih =>
      obtain ⟨values, lists, tables⟩ := ih
      refine ⟨fun cs => ?_, fun done cs each => ?_, fun t cs tidy => ?_⟩
      · unfold value
        split
        · refine .after fun rest => ?_
          split
          · exact .ok (.list nofun)
          · exact lists [] _ nofun
        · split
          · exact .ok .nil
          · exact tables _ _ .nil
        · exact tidy_scalar cs
      · unfold items
        refine .bind (values cs) fun r hr => .after fun rest => ?_
        have all : ∀ v ∈ done ++ [r.1], Tidy v :=
          List.forall_mem_append.mpr ⟨each, by simpa using hr⟩
        split
        · exact .ok (.list all)
        · refine .after fun rest => ?_
          split
          · exact .ok (.list all)
          · exact lists _ _ all
        · exact .error _
      · unfold pairs
        refine .after fun ⟨key, rest⟩ => ?_
        dsimp only
        split
        · refine .bind (values _) fun r hr => ?_
          refine .bind (.found (tidy_inline_write tidy hr)) fun t' tidy' => ?_
          split
          · exact .ok tidy'
          · exact tables _ _ tidy'
          · exact .error _
        · exact .error _

/-! ## Reading documents -/

variable {r : Reader}

theorem tidy_reader_write {key : Key} (h : AreTidy r.entries) (hv : Tidy v) :
    Finds (fun r' => AreTidy r'.entries) (r.write key v) := by
  unfold Reader.write
  dsimp only
  refine .after fun marks => .ite .none (.after fun name => ?_)
  refine .bind (P := AreTidy) ?_ fun entries tidy => .some tidy
  exact tidy_changeTable (fun _ inner => tidy_writeNew inner hv) _ h

theorem tidy_openTable {key : Key} (h : AreTidy r.entries) :
    Finds (fun r' => AreTidy r'.entries) (r.openTable key) := by
  unfold Reader.openTable
  dsimp only
  refine .ite .none (.bind (P := AreTidy) ?_ fun entries tidy => .some tidy)
  exact tidy_changeTable (fun _ => .some) _ h

theorem tidy_addTable {key : Key} (h : AreTidy r.entries) :
    Finds (fun r' => AreTidy r'.entries) (r.addTable key) := by
  unfold Reader.addTable
  dsimp only
  refine .ite .none (.after fun name => .bind (P := AreTidy) ?_ fun entries tidy => .some tidy)
  exact tidy_changeTable (fun _ => tidy_appendTable) _ h

/-- A statement leaves the tables tidy. -/
theorem tidy_statement (fuel : Nat) (cs : List Char) (h : AreTidy r.entries) :
    Yields (fun read => AreTidy read.1.entries) (statement fuel r cs) := by
  unfold statement
  split
  · refine .after fun ⟨key, rest⟩ => .bind (.found (tidy_addTable h)) fun r' tidy => ?_
    split
    · exact .ok tidy
    · exact .error _
  · refine .after fun ⟨key, rest⟩ => .bind (.found (tidy_openTable h)) fun r' tidy => ?_
    split
    · exact .ok tidy
    · exact .error _
  · exact .ok h
  · refine .after fun ⟨key, rest⟩ => ?_
    dsimp only
    split
    · refine .bind ((tidy_value fuel).1 _) fun read hv => ?_
      exact .bind (.found (tidy_reader_write h hv)) fun r' tidy => .ok tidy
    · exact .error _

theorem tidy_statements (fuel : Nat) (cs : List Char) (h : AreTidy r.entries) :
    Yields AreTidy (statements fuel r cs) := by
  induction fuel generalizing r cs with
  | zero => exact .error _
  | succ fuel ih =>
      unfold statements
      split
      · exact .ok h
      · exact ih _ h
      · refine .bind (tidy_statement _ _ h) fun read tidy => .after fun rest => ?_
        split
        · exact .ok tidy
        · exact ih _ tidy
        · exact .error _

/-- A settings file is tidy. -/
theorem tidy_parse (s : String) : Yields AreTidy (parse s) := tidy_statements _ _ .nil

end Toml

end ClientForge
