import ClientForge.Emission.View
import Mathlib.Data.List.Forall2

/-!
# Running generated bodies

What the generated methods compute, in either language. A run gives no value where the
program stops with an error: a date is written of something that is no date, the raw data is
asked of something that is no entity, a list is mapped that is none. The languages differ in
what they make a date of, in what they take for a missing list, and in whether the items of a
list are checked against the class that they are declared with.
-/

namespace ClientForge.Emission

/-- Values while a generated method runs. -/
inductive Datum
  /-- No value. -/
  | absent
  /-- A text of the raw data. -/
  | text (s : String)
  /-- A record of the raw data. -/
  | record (members : List (String × Json))
  | list (items : List Datum)
  /-- The date that is made of a value. -/
  | date (source : Datum)
  /-- The text that the date made of a value is written as. -/
  | dateText (source : Datum)
  /-- An object of a class over raw data; a result also has the key of its items. -/
  | object (cls : String) (data : Datum) (itemsKey : Option String)
  deriving Inhabited

/-- What the date class and the classes of a program decide. -/
structure Runtime where
  /-- Whether a value denotes a date. -/
  denotesDate : Datum → Bool
  /-- Whether a class is another one or extends it. -/
  isKindOf : String → String → Bool
  /-- The text of a date denotes a date. -/
  denotesDate_dateText : ∀ v, denotesDate v = true → denotesDate (.dateText v) = true
  isKindOf_self : ∀ cls, isKindOf cls cls = true

namespace Datum

def isText : Datum → Bool
  | text _ => true
  | dateText _ => true
  | _ => false

def isRecord : Datum → Bool
  | record _ => true
  | _ => false

def items? : Datum → Option (List Datum)
  | list items => some items
  | _ => none

/-- The raw data of an entity. -/
def raw? : Datum → Option Datum
  | object _ data _ => some data
  | _ => none

/-- A value, or an empty list in place of one that is missing. -/
def orEmpty : Language → Datum → Datum
  | _, absent => list []
  | .javascript, text s => if s = "" then list [] else text s
  | _, v => v

end Datum

namespace Runtime

variable (rt : Runtime)

/-- Every value denotes a date, and no class extends another one. -/
def plain : Runtime where
  denotesDate _ := true
  isKindOf own cls := own == cls
  denotesDate_dateText _ _ := rfl
  isKindOf_self cls := beq_self_eq_true cls

/-- The date of a value. One language makes dates that denote none, the other stops. -/
def create : Language → Datum → Option Datum
  | _, .absent => some .absent
  | .javascript, v => some (.date v)
  | .php, v => if v.isText && rt.denotesDate v then some (.date v) else none

/-- The text of a date. -/
def format : Datum → Option Datum
  | .absent => some .absent
  | .date v => if rt.denotesDate v then some (.dateText v) else none
  | _ => none

/-- Whether an item may be passed where a class is declared. -/
def admits : Language → Option String → Datum → Bool
  | .php, some cls, .object own _ _ => rt.isKindOf own cls
  | .php, some _, _ => false
  | _, _, _ => true

end Runtime

/-- The values that the expressions of a method refer to. -/
structure Scope where
  argument : String → Datum
  stored : String → Datum
  data : Datum
  item : Datum

/-- The value of an expression, if its run ends with one. -/
def Code.eval (rt : Runtime) (l : Language) : Code → Scope → Option Datum
  | argument name, s => some (s.argument name)
  | data, s => some s.data
  | item, s => some s.item
  | stored key, s => some (s.stored key)
  | orEmpty c, s => (c.eval rt l s).map (·.orEmpty l)
  | dateOf c, s => (c.eval rt l s).bind (rt.create l)
  | dateText c, s => (c.eval rt l s).bind rt.format
  | construct cls c key, s => (c.eval rt l s).map (.object cls · key)
  | rawOf c, s => (c.eval rt l s).bind (·.raw?)
  | ifPresent tested c, s =>
    (tested.eval rt l s).bind fun
      | .absent => some .absent
      | _ => c.eval rt l s
  | mapped list body cls, s =>
    ((list.eval rt l s).bind (·.items?)).bind fun items =>
      (items.mapM fun v =>
        if rt.admits l cls v then body.eval rt l { s with item := v } else none).map .list

/-- What a body gives back, or what it writes. -/
def Body.run (rt : Runtime) (l : Language) : Body → Scope → Option Datum
  | give c, s => c.eval rt l s
  | bindThenGive source c, s =>
    (source.eval rt l s).bind fun v => c.eval rt l { s with data := v }
  | store _ c, s => c.eval rt l s

@[simp] theorem Runtime.admits_none (rt : Runtime) (l : Language) (v : Datum) :
    rt.admits l none v = true := by
  cases l <;> rfl

namespace Code

variable {rt : Runtime} {l : Language} {s : Scope}

/-- Mapping converts each item of a list on its own. -/
theorem eval_mapped {list body : Code} {cls : Option String} {vs : List Datum}
    {f : Datum → Option Datum} (listed : list.eval rt l s = some (.list vs))
    (each : ∀ v, (if rt.admits l cls v then body.eval rt l { s with item := v } else none) = f v) :
    (mapped list body cls).eval rt l s = (vs.mapM f).map .list := by
  rw [eval, listed, ← funext each]
  rfl

theorem eval_ifPresent {tested c : Code} {v : Datum} (found : tested.eval rt l s = some v)
    (present : v ≠ .absent) : (ifPresent tested c).eval rt l s = c.eval rt l s := by
  rw [eval, found, Option.bind_some]
  cases v with
  | absent => exact absurd rfl present
  | _ => rfl

end Code

theorem Body.run_bindThenGive {rt : Runtime} {l : Language} {s : Scope} {source c : Code}
    {v : Datum} (found : source.eval rt l s = some v) :
    (bindThenGive source c).run rt l s = c.eval rt l { s with data := v } := by
  rw [run, found, Option.bind_some]

/-! ## Nested lists -/

/-- Lists of lists down to some depth, with leaves of a kind. -/
inductive Nested (leaf : Datum → Prop) : Nat → Datum → Prop
  | leaf {v : Datum} (h : leaf v) : Nested leaf 0 v
  | list {depth : Nat} {items : List Datum} (each : ∀ v ∈ items, Nested leaf depth v) :
      Nested leaf (depth + 1) (.list items)

variable {leaf other : Datum → Prop} {depth : Nat} {v : Datum} {f g : Datum → Option Datum}
  {items : List Datum}

theorem nested_zero_iff : Nested leaf 0 v ↔ leaf v := by
  constructor
  · rintro ⟨h⟩
    exact h
  · exact .leaf

theorem nested_succ_iff :
    Nested leaf (depth + 1) v ↔ ∃ items, v = .list items ∧ ∀ w ∈ items, Nested leaf depth w := by
  constructor
  · rintro ⟨⟩
    next each => exact ⟨_, rfl, each⟩
  · rintro ⟨items, rfl, each⟩
    exact .list each

/-- An empty list has every depth but the least. -/
theorem nested_nil (leaf : Datum → Prop) (depth : Nat) : Nested leaf (depth + 1) (.list []) :=
  .list fun _ h => absurd h List.not_mem_nil

theorem mapM_singleton (f : Datum → Option Datum) (v : Datum) :
    [v].mapM f = (f v).map fun w => [w] := by
  rw [List.mapM_cons]
  cases f v <;> rfl

/-- Functions that agree on the items of a list convert it to the same list. -/
theorem mapM_congr (h : ∀ v ∈ items, f v = g v) : items.mapM f = items.mapM g := by
  induction items with
  | nil => rfl
  | cons v rest ih =>
      rw [List.mapM_cons, List.mapM_cons, h v List.mem_cons_self,
        ih fun w hw => h w (List.mem_cons_of_mem v hw)]

/-- A list is converted if each of its items is. -/
theorem exists_mapM_eq_some (h : ∀ v ∈ items, ∃ w, f v = some w ∧ other w) :
    ∃ ws, items.mapM f = some ws ∧ ∀ w ∈ ws, other w := by
  induction items with
  | nil => exact ⟨[], rfl, fun _ hw => absurd hw List.not_mem_nil⟩
  | cons v rest ih =>
      obtain ⟨w, first, good⟩ := h v List.mem_cons_self
      obtain ⟨ws, others, all⟩ := ih fun u hu => h u (List.mem_cons_of_mem v hu)
      refine ⟨w :: ws, by rw [List.mapM_cons, first, others]; rfl, fun u hu => ?_⟩
      rcases List.mem_cons.mp hu with rfl | hu
      · exact good
      · exact all u hu

end ClientForge.Emission
