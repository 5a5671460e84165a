/-!
# Tables and sorted lists

A table keeps one value for each name, in the order in which the names first came.
Writing under a name that is there replaces the value and leaves the place. Sorting
by an order keeps items that are equal under it in their places.
-/

namespace ClientForge

/-- Values under names, in the order in which the names first came. -/
abbrev Table (α : Type) := List (String × α)

namespace Table

variable {α : Type}

def get? (name : String) : Table α → Option α
  | [] => none
  | (n, x) :: rest => if n = name then some x else get? name rest

def has (name : String) (t : Table α) : Bool := (get? name t).isSome

/-- Write a value under a name. -/
def put (name : String) (x : α) : Table α → Table α
  | [] => [(name, x)]
  | (n, y) :: rest => if n = name then (n, x) :: rest else (n, y) :: put name x rest

/-- All entries of a second table written to a first one. -/
def update (t u : Table α) : Table α := u.foldl (fun acc e => put e.1 e.2 acc) t

def ofList (entries : List (String × α)) : Table α := update [] entries

def names (t : Table α) : List String := t.map (·.1)

@[simp] theorem get?_put_self (name : String) (x : α) (t : Table α) :
    get? name (put name x t) = some x := by
  induction t with
  | nil => simp [put, get?]
  | cons e rest ih =>
    by_cases h : e.1 = name <;> simp [put, get?, h, ih]

theorem get?_put_of_ne {name other : String} (h : other ≠ name) (x : α) (t : Table α) :
    get? other (put name x t) = get? other t := by
  induction t with
  | nil => simp [put, get?, Ne.symm h]
  | cons e rest ih =>
    by_cases hn : e.1 = name
    · simp [put, get?, hn, Ne.symm h]
    · by_cases ho : e.1 = other
      · subst ho
        simp [put, get?, h]
      · simp [put, get?, hn, ho, ih]

end Table

/-- Insert an item before the first one that the order puts after it. -/
def insertBy {α : Type} (before : α → α → Bool) (x : α) : List α → List α
  | [] => [x]
  | y :: rest => if before x y then x :: y :: rest else y :: insertBy before x rest

/-- Sort by an order. -/
def sortBy {α : Type} (before : α → α → Bool) (xs : List α) : List α :=
  xs.foldl (fun sorted x => insertBy before x sorted) []

end ClientForge
