import ClientForge.Proofs.Imports
import ClientForge.Proofs.Numeral

/-!
# Names of methods

The methods of a client are told apart by labels. A method wishes for its own name or,
where that is given already, for the one with the parameters of its path; where this is
given too it takes a number behind it, which counts the numbers of the same wish. No label
comes twice. Two labels may be spelled alike all the same, since a number cannot be told
from digits that end a name, and nothing asks whether the name with the number is free. So
the names of a client are distinct exactly if no two methods of different wishes are spelled
alike, which is certain if no wish is another one with digits behind it.
-/

namespace ClientForge

namespace Emission

/-- The name that a method wishes for, and the number that tells it from methods before it
where the name is given. -/
structure Label where
  wish : String
  number? : Option Nat
  deriving DecidableEq, Repr

namespace Label

variable {x y : Label} {before : List Label} {name : String} {parameters : List String}

/-- The name that a label spells. -/
def text (x : Label) : String :=
  match x.number? with
  | some n => x.wish ++ toString n
  | none => x.wish

/-- How often a wish has been given a number. -/
def timesNumbered (wish : String) (before : List Label) : Nat :=
  before.countP fun x => x.wish == wish && x.number?.isSome

/-- The name that a method wishes for after some others. -/
def wishFor (before : List Label) (name : String) (parameters : List String) : String :=
  if name ∈ before.map text ∧ parameters ≠ [] then
    name ++ "By" ++ "And".intercalate (parameters.map Naming.pascal)
  else name

/-- The label of a method after some others. -/
def next (before : List Label) (name : String) (parameters : List String) : Label :=
  let wish := wishFor before name parameters
  ⟨wish, if wish ∈ before.map text then some (timesNumbered wish before + 2) else none⟩

/-- The labels of methods with some names and parameters, after some others. -/
def allAfter (before : List Label) : List (String × List String) → List Label
  | [] => before
  | (name, parameters) :: rest => allAfter (before ++ [next before name parameters]) rest

theorem text_ne_wish {n : Nat} (wish : String) : wish ++ toString n ≠ wish := by
  intro same
  have empty : (toString n).toList = [] := by
    simpa using congrArg String.toList same
  exact Text.toList_toString_ne_nil n empty

/-- A label is told by its wish and its name. -/
theorem eq_of_text_eq (wish : x.wish = y.wish) (same : x.text = y.text) : x = y := by
  obtain ⟨w, n⟩ := x
  obtain ⟨v, m⟩ := y
  obtain rfl : w = v := wish
  cases n with
  | none =>
      cases m with
      | none => rfl
      | some m => exact absurd same.symm (text_ne_wish w)
  | some n =>
      cases m with
      | none => exact absurd same (text_ne_wish w)
      | some m =>
          have digits : (toString n).toList = (toString m).toList := by
            simpa [text] using congrArg String.toList same
          rw [Text.toString_injective (String.toList_inj.mp digits)]

theorem timesNumbered_append (wish : String) (before : List Label) (x : Label) :
    timesNumbered wish (before ++ [x]) =
      timesNumbered wish before + if x.wish = wish ∧ x.number?.isSome then 1 else 0 := by
  rw [timesNumbered, List.countP_append, List.countP_singleton, timesNumbered]
  simp

/-- What holds of the labels of methods at every time: none comes twice, what is wished for
is given, and numbers are counted from two on. -/
structure InOrder (before : List Label) : Prop where
  once : before.Nodup
  given : ∀ x ∈ before, x.wish ∈ before.map text
  counted : ∀ x ∈ before, ∀ n, x.number? = some n → n < timesNumbered x.wish before + 2

theorem next_notMem (order : InOrder before) (name : String) (parameters : List String) :
    next before name parameters ∉ before := by
  intro old
  by_cases taken : wishFor before name parameters ∈ before.map text
  · have counted := order.counted _ old (timesNumbered (wishFor before name parameters) before + 2)
      (by simp only [next, if_pos taken])
    simp [next] at counted
  · exact taken (order.given _ old)

theorem InOrder.append_next (order : InOrder before) (name : String) (parameters : List String) :
    InOrder (before ++ [next before name parameters]) := by
  refine ⟨order.once.append (List.nodup_singleton _) (by simpa using next_notMem order _ _), ?_, ?_⟩
  · intro x hx
    rw [List.map_append, List.mem_append]
    rcases List.mem_append.mp hx with old | new
    · exact .inl (order.given x old)
    · obtain rfl := List.mem_singleton.mp new
      by_cases taken : wishFor before name parameters ∈ before.map text
      · exact .inl taken
      · exact .inr (by simp [next, text, taken])
  · intro x hx n numbered
    rw [timesNumbered_append]
    rcases List.mem_append.mp hx with old | new
    · have counted := order.counted x old n numbered
      omega
    · obtain rfl := List.mem_singleton.mp new
      by_cases taken : wishFor before name parameters ∈ before.map text
      · obtain rfl : timesNumbered (wishFor before name parameters) before + 2 = n := by
          simpa [next, taken] using numbered
        simp [next, taken]
      · simp [next, taken] at numbered

theorem inOrder_allAfter (order : InOrder before) (methods : List (String × List String)) :
    InOrder (allAfter before methods) := by
  induction methods generalizing before with
  | nil => exact order
  | cons m rest ih => exact ih (order.append_next m.1 m.2)

/-- Whether labels of different wishes are never spelled alike. -/
def SpelledApart (labels : List Label) : Prop :=
  ∀ x ∈ labels, ∀ y ∈ labels, x.wish ≠ y.wish → x.text ≠ y.text

instance (labels : List Label) : Decidable (SpelledApart labels) :=
  inferInstanceAs (Decidable (∀ x ∈ labels, ∀ y ∈ labels, x.wish ≠ y.wish → x.text ≠ y.text))

/-- Whether no wish is another one with digits behind it. -/
def NoneExtended (labels : List Label) : Prop :=
  ∀ x ∈ labels, ∀ y ∈ labels, ∀ digits, digits ≠ [] →
    (∀ c ∈ digits, Text.isAsciiDigit c = true) → y.wish.toList ≠ x.wish.toList ++ digits

/-- Labels that do not come twice spell different names exactly if those of different wishes
do. -/
theorem nodup_texts_iff {labels : List Label} (once : labels.Nodup) :
    (labels.map text).Nodup ↔ SpelledApart labels := by
  rw [List.nodup_map_iff_inj_on once]
  constructor
  · intro apart x hx y hy differ same
    exact differ (congrArg wish (apart x hx y hy same))
  · intro apart x hx y hy same
    by_contra differ
    exact apart x hx y hy (fun wish => differ (eq_of_text_eq wish same)) same

/-- Two wishes with digits behind them are only spelled alike if one of them is the other one
with digits behind it. -/
theorem extended_of_append_eq {v w : String} {ns ms : List Char} (differ : v ≠ w)
    (left : ∀ c ∈ ns, Text.isAsciiDigit c = true) (right : ∀ c ∈ ms, Text.isAsciiDigit c = true)
    (same : v.toList ++ ns = w.toList ++ ms) :
    ∃ digits, digits ≠ [] ∧ (∀ c ∈ digits, Text.isAsciiDigit c = true) ∧
      (w.toList = v.toList ++ digits ∨ v.toList = w.toList ++ digits) := by
  have some_ {digits : List Char}
      (h : w.toList = v.toList ++ digits ∨ v.toList = w.toList ++ digits) :
      digits ≠ [] := by
    rintro rfl
    rcases h with h | h
    · exact differ (String.toList_inj.mp (by simpa using h.symm))
    · exact differ (String.toList_inj.mp (by simpa using h))
  rcases List.append_eq_append_iff.mp same with ⟨digits, longer, cut⟩ | ⟨digits, longer, cut⟩
  · exact ⟨digits, some_ (.inl longer), fun c hc => left c (cut ▸ List.mem_append_left _ hc),
      .inl longer⟩
  · exact ⟨digits, some_ (.inr longer), fun c hc => right c (cut ▸ List.mem_append_left _ hc),
      .inr longer⟩

/-- The characters of a label behind its wish are digits. -/
theorem exists_text_eq (x : Label) : ∃ ns : List Char,
    (∀ c ∈ ns, Text.isAsciiDigit c = true) ∧ x.text.toList = x.wish.toList ++ ns := by
  obtain ⟨w, n⟩ := x
  cases n with
  | none => exact ⟨[], by simp, by simp [text]⟩
  | some n =>
      exact ⟨(toString n).toList, fun c hc => Text.isAsciiDigit_of_mem_toString hc, by simp [text]⟩

theorem spelledApart_of_noneExtended {labels : List Label} (none : NoneExtended labels) :
    SpelledApart labels := by
  intro x hx y hy differ same
  obtain ⟨ns, left, xs⟩ := exists_text_eq x
  obtain ⟨ms, right, ys⟩ := exists_text_eq y
  obtain ⟨digits, some_, all, longer⟩ :=
    extended_of_append_eq differ left right (by rw [← xs, ← ys, same])
  rcases longer with longer | longer
  · exact none x hx y hy digits some_ all longer
  · exact none y hy x hx digits some_ all longer

end Label

open Label

section Tally

variable {taken : Taken} {before : List Label}

/-- Whether a table of names says what labels say: which names are given, and how often each
was numbered. -/
def Tallies (taken : Taken) (before : List Label) : Prop :=
  ∀ name, taken.get? name =
    if name ∈ before.map text then some (timesNumbered name before + 1) else none

theorem tallies_nil : Tallies [] [] := fun _ => rfl

theorem Tallies.has_iff (tallies : Tallies taken before) (name : String) :
    taken.has name = true ↔ name ∈ before.map text := by
  rw [Table.has, tallies name]
  split <;> simp_all

/-- What is not given was never numbered. -/
theorem timesNumbered_eq_zero (order : InOrder before) {name : String}
    (free : name ∉ before.map text) : timesNumbered name before = 0 := by
  rw [timesNumbered, List.countP_eq_zero]
  intro x hx counted
  rw [Bool.and_eq_true, beq_iff_eq] at counted
  exact free (counted.1 ▸ order.given x hx)

/-- One more label is one more name, and one more number if it has one. -/
theorem Tallies.of_append (tallies : Tallies taken before) {taken' : Taken} {x : Label}
    (own : taken'.get? x.wish = some (timesNumbered x.wish (before ++ [x]) + 1))
    (name : x.text ≠ x.wish →
      taken'.get? x.text = some (timesNumbered x.text (before ++ [x]) + 1))
    (given : x.wish ∈ (before ++ [x]).map text)
    (others : ∀ other, other ≠ x.wish → other ≠ x.text → taken'.get? other = taken.get? other) :
    Tallies taken' (before ++ [x]) := by
  intro other
  by_cases wish : other = x.wish
  · subst wish
    rw [own, if_pos given]
  · by_cases spelled : other = x.text
    · subst spelled
      rw [name wish, if_pos (by simp)]
    · have count : timesNumbered other (before ++ [x]) = timesNumbered other before := by
        rw [timesNumbered_append, if_neg fun h => wish h.1.symm, Nat.add_zero]
      rw [others other wish spelled, tallies other, count]
      simp [spelled]

/-- A label without a number is a name that is met for the first time. -/
theorem Tallies.put_new (tallies : Tallies taken before) (order : InOrder before) {x : Label}
    (number : x.number? = none) (free : x.wish ∉ before.map text) :
    Tallies (taken.put x.wish 1) (before ++ [x]) := by
  have spelled : x.text = x.wish := by rw [text, number]
  refine tallies.of_append ?_ (fun other => absurd spelled other) (by simp [spelled]) ?_
  · rw [Table.get?_put_self, timesNumbered_append, timesNumbered_eq_zero order free, number]
    simp
  · exact fun other wish _ => Table.get?_put_of_ne wish _ _

/-- A label with a number counts for its wish, and its name is met, perhaps not for the first
time. -/
theorem Tallies.put_numbered (tallies : Tallies taken before) (order : InOrder before) {x : Label}
    {n : Nat} (number : x.number? = some n) (given : x.wish ∈ before.map text) :
    Tallies
      (let counted := taken.put x.wish (timesNumbered x.wish before + 2)
      if counted.has x.text then counted else counted.put x.text 1) (before ++ [x]) := by
  have longer : x.text ≠ x.wish := by
    rw [text, number]
    exact text_ne_wish x.wish
  have counted : timesNumbered x.wish (before ++ [x]) = timesNumbered x.wish before + 1 := by
    rw [timesNumbered_append, if_pos ⟨rfl, by rw [number]; rfl⟩]
  have same : timesNumbered x.text (before ++ [x]) = timesNumbered x.text before := by
    rw [timesNumbered_append, if_neg fun h => longer h.1.symm, Nat.add_zero]
  have still : x.wish ∈ (before ++ [x]).map text := by
    rw [List.map_append]
    exact List.mem_append_left _ given
  have known : Table.has x.text (taken.put x.wish (timesNumbered x.wish before + 2)) = true ↔
      x.text ∈ before.map text := by
    rw [← tallies.has_iff, Table.has, Table.get?_put_of_ne longer, Table.has]
  dsimp only
  split
  next old =>
    refine tallies.of_append ?_ (fun _ => ?_) still fun other wish _ => ?_
    · rw [Table.get?_put_self, counted]
    · rw [same, Table.get?_put_of_ne longer, tallies, if_pos (known.mp old)]
    · exact Table.get?_put_of_ne wish _ _
  next new =>
    refine tallies.of_append ?_ (fun _ => ?_) still fun other wish spelled => ?_
    · rw [Table.get?_put_of_ne longer.symm, Table.get?_put_self, counted]
    · rw [same, timesNumbered_eq_zero order (mt known.mpr new), Table.get?_put_self]
    · rw [Table.get?_put_of_ne spelled, Table.get?_put_of_ne wish]

/-- Naming a method apart is giving it the next label. -/
theorem uniqueName_spec (tallies : Tallies taken before) (order : InOrder before) (name : String)
    (parameters : List String) :
    (uniqueName name parameters taken).1 = (next before name parameters).text ∧
      Tallies (uniqueName name parameters taken).2 (before ++ [next before name parameters]) := by
  have wish : (if taken.has name && !parameters.isEmpty then
      name ++ "By" ++ "And".intercalate (parameters.map Naming.pascal) else name) =
        wishFor before name parameters := by
    rw [wishFor]
    refine if_congr ?_ rfl rfl
    rw [Bool.and_eq_true, tallies.has_iff, Bool.not_eq_true', List.isEmpty_eq_false_iff]
  rw [uniqueName]
  dsimp only
  rw [wish]
  have found := tallies (wishFor before name parameters)
  by_cases there : wishFor before name parameters ∈ before.map text
  · have number : (next before name parameters).number? =
        some (timesNumbered (wishFor before name parameters) before + 2) := by
      simp only [next, if_pos there]
    have spelled : (next before name parameters).text = wishFor before name parameters ++
        toString (timesNumbered (wishFor before name parameters) before + 2) := by
      rw [text, number]
      rfl
    rw [if_pos there] at found
    rw [found]
    dsimp only
    exact ⟨spelled.symm, spelled ▸ tallies.put_numbered order number there⟩
  · have number : (next before name parameters).number? = none := by
      simp only [next, if_neg there]
    rw [if_neg there] at found
    rw [found]
    dsimp only
    refine ⟨?_, tallies.put_new order number there⟩
    rw [text, number]
    rfl

end Tally

/-- The name of an action before it is told from others. -/
def plainName (a : Action) : String := (Naming.methodName a).toOption.getD ""

/-- The labels of the methods that call some actions. -/
def labels (actions : List Action) : List Label :=
  allAfter [] (actions.map fun a => (plainName a, a.pathParameters))

variable {l : Language} {index : Index} {actions : List Action}

theorem inOrder_labels (actions : List Action) : InOrder (labels actions) :=
  inOrder_allAfter ⟨List.nodup_nil, by simp, by simp⟩ _

/-- The first method is named apart, and the others after it. -/
theorem methodViews_cons_eq_ok {taken : Taken} {a : Action} {methods : List MethodView} :
    methodViews l index taken (a :: actions) = .ok methods ↔
      ∃ w more, actionView l index a = .ok w ∧
        methodViews l index (uniqueName w.name a.pathParameters taken).2 actions = .ok more ∧
        methods = { w with name := (uniqueName w.name a.pathParameters taken).1 } :: more := by
  rw [methodViews, Outcome.bind_eq_ok]
  constructor
  · rintro ⟨w, viewed, h⟩
    obtain ⟨more, tail, h⟩ := Outcome.bind_eq_ok.mp h
    exact ⟨w, more, viewed, tail, (Except.ok.inj h).symm⟩
  · rintro ⟨w, more, viewed, tail, rfl⟩
    exact ⟨w, viewed, Outcome.bind_eq_ok.mpr ⟨more, tail, rfl⟩⟩

/-- The methods of a client are named by their labels. -/
theorem names_methodViews {taken : Taken} {before : List Label} {methods : List MethodView}
    (h : methodViews l index taken actions = .ok methods) (tallies : Tallies taken before)
    (order : InOrder before) :
    before.map text ++ methods.map (·.name) =
      (allAfter before (actions.map fun a => (plainName a, a.pathParameters))).map text := by
  induction actions generalizing taken before methods with
  | nil =>
      obtain rfl := Except.ok.inj h
      simp [allAfter]
  | cons a rest ih =>
      obtain ⟨w, more, viewed, tail, rfl⟩ := methodViews_cons_eq_ok.mp h
      have plain : plainName a = w.name := by
        rw [plainName, (isMethodView viewed).name]
        rfl
      obtain ⟨named, tallies'⟩ := uniqueName_spec tallies order w.name a.pathParameters
      have rest := ih tail tallies' (order.append_next w.name a.pathParameters)
      rw [List.map_append, List.append_assoc] at rest
      rw [List.map_cons, List.map_cons, allAfter, plain, ← rest, named]
      rfl

/-- The methods of a client are named by labels that do not come twice. Their names are
distinct exactly if no two methods of different wishes are spelled alike, and certainly if no
wish is another one with digits behind it. -/
theorem method_names_nodup_iff {client : String} {view : ClientView}
    (viewed : clientView l index client actions = .ok view) :
    view.methods.map (·.name) = (labels actions).map text ∧ (labels actions).Nodup ∧
      ((view.methods.map (·.name)).Nodup ↔ SpelledApart (labels actions)) ∧
      (NoneExtended (labels actions) → (view.methods.map (·.name)).Nodup) := by
  have names : view.methods.map (·.name) = (labels actions).map text :=
    names_methodViews (isClientView viewed).methods tallies_nil
      ⟨List.nodup_nil, by simp, by simp⟩
  have once := (inOrder_labels actions).once
  rw [names]
  refine ⟨rfl, once, nodup_texts_iff once, fun none => ?_⟩
  exact (nodup_texts_iff once).mpr (spelledApart_of_noneExtended none)

/-- Three actions on one path are named apart by the parameter of one and a number. -/
theorem items_named_apart : ∃ view,
    clientView .javascript [] "Shop"
      [{ path := "/items" }, { path := "/items/\x7bid\x7d" }, { path := "/items" }] = .ok view ∧
    view.methods.map (·.name) = ["getItems", "getItemsById", "getItems2"] ∧
    (view.methods.map (·.name)).Nodup := by
  have viewed : clientView .javascript [] "Shop"
      [{ path := "/items" }, { path := "/items/\x7bid\x7d" }, { path := "/items" }] = .ok _ := rfl
  obtain ⟨named, -, distinct, -⟩ := method_names_nodup_iff viewed
  exact ⟨_, viewed, named.trans (by decide +kernel), distinct.mpr (by decide +kernel)⟩

/-- A number completes a name to one that another action has given itself. -/
theorem number_spells_given_name : ∃ view,
    clientView .javascript [] "Shop"
      [{ path := "/a", displayName := .str "list2" }, { path := "/b", displayName := .str "list" },
        { path := "/c", displayName := .str "list" }] = .ok view ∧
    view.methods.map (·.name) = ["list2", "list", "list2"] ∧
    ¬ (view.methods.map (·.name)).Nodup := by
  refine ⟨_, rfl, ?_, ?_⟩ <;> decide +kernel

end Emission

end ClientForge
