import ClientForge.Proofs.JsonScan

/-!
# Reading JSON documents

A document is read from its tokens, one after another. The reader keeps a stack of the lists and
objects that are open, with what is read of each, and knows what is due next. Nothing that it reads
is lost: at any time the tokens that are behind it are those of what it holds. So it reads a
document from the tokens of that document and from no others, and every string in what is read is a
token.
-/

namespace ClientForge.Json

/-! ## The tokens of a document -/

/-- Pieces with commas between them. -/
def separated : List (List Token) → List Token
  | [] => []
  | [piece] => piece
  | piece :: next :: more => piece ++ .comma :: separated (next :: more)

/-- Pieces with a comma behind each. -/
def ended (pieces : List (List Token)) : List Token := pieces.flatMap (· ++ [.comma])

theorem separated_concat (pieces : List (List Token)) (last : List Token) :
    separated (pieces ++ [last]) = ended pieces ++ last := by
  induction pieces with
  | nil => rfl
  | cons piece more ih =>
      obtain ⟨next, others, parts⟩ : ∃ next others, more ++ [last] = next :: others :=
        List.exists_cons_of_ne_nil (by simp)
      rw [List.cons_append, parts, separated, ← parts, ih]
      simp [ended]

theorem exists_separated_cons (piece : List Token) (more : List (List Token)) :
    ∃ rest, separated (piece :: more) = piece ++ rest := by
  cases more with
  | nil => exact ⟨[], (List.append_nil piece).symm⟩
  | cons next more => exact ⟨_, rfl⟩

theorem subset_separated {pieces : List (List Token)} {piece : List Token} (h : piece ∈ pieces) :
    piece ⊆ separated pieces := by
  induction pieces with
  | nil => cases h
  | cons first more ih =>
      cases more with
      | nil => exact List.mem_singleton.mp h ▸ List.Subset.refl _
      | cons next more =>
          rw [separated]
          rcases List.mem_cons.mp h with rfl | h
          · exact List.subset_append_left _ _
          · exact List.subset_append_of_subset_right _ (List.subset_cons_of_subset _ (ih h))

namespace Printed

mutual

def tokens : Printed → List Token
  | .word w => [.word w]
  | .str s => [.str s]
  | .arr items => .openArr :: (separated (itemTokens items) ++ [.closeArr])
  | .obj members => .openObj :: (separated (memberTokens members) ++ [.closeObj])

def itemTokens : List Printed → List (List Token)
  | [] => []
  | item :: rest => tokens item :: itemTokens rest

def memberTokens : List (String × Printed) → List (List Token)
  | [] => []
  | member :: rest => oneMemberTokens member :: memberTokens rest

def oneMemberTokens : String × Printed → List Token
  | (name, item) => .str name :: .colon :: tokens item

end

theorem itemTokens_eq_map (items : List Printed) : itemTokens items = items.map tokens := by
  induction items with
  | nil => rfl
  | cons item rest ih => rw [itemTokens, ih, List.map_cons]

theorem memberTokens_eq_map (members : List (String × Printed)) :
    memberTokens members = members.map oneMemberTokens := by
  induction members with
  | nil => rfl
  | cons member rest ih => rw [memberTokens, ih, List.map_cons]

end Printed

/-! ## The reader -/

/-- A list or an object that is open: what is read of it, and the name of the member that is due. -/
inductive Frame
  | items (before : List Printed)
  | members (before : List (String × Printed)) (name : String)

/-- What a reader of documents has read, and what is due next. -/
inductive Reading
  /-- A value is due. -/
  | value (outer : List Frame)
  /-- Behind the opening of a list: a value, or the end of the list. -/
  | opened (outer : List Frame)
  /-- Behind the opening of an object: a name, or the end of the object. -/
  | braced (outer : List Frame)
  /-- Behind a comma in an object. -/
  | name (before : List (String × Printed)) (outer : List Frame)
  /-- Behind the name of a member. -/
  | colon (before : List (String × Printed)) (name : String) (outer : List Frame)
  /-- Behind a value. -/
  | done (p : Printed) (outer : List Frame)

namespace Reading

/-- What a token starts where a value is due. -/
def start (outer : List Frame) : Token → Option Reading
  | .word w => some (done (.word w) outer)
  | .str s => some (done (.str s) outer)
  | .openArr => some (opened outer)
  | .openObj => some (braced outer)
  | _ => none

def step : Reading → Token → Option Reading
  | value outer, t => start outer t
  | opened outer, .closeArr => some (done (.arr []) outer)
  | opened outer, t => start (.items [] :: outer) t
  | braced outer, .closeObj => some (done (.obj []) outer)
  | braced outer, .str s => some (colon [] s outer)
  | name before outer, .str s => some (colon before s outer)
  | colon before s outer, .colon => some (value (.members before s :: outer))
  | done p (.items before :: outer), .comma => some (value (.items (before ++ [p]) :: outer))
  | done p (.items before :: outer), .closeArr => some (done (.arr (before ++ [p])) outer)
  | done p (.members before s :: outer), .comma => some (name (before ++ [(s, p)]) outer)
  | done p (.members before s :: outer), .closeObj => some (done (.obj (before ++ [(s, p)])) outer)
  | _, _ => none

def run : Reading → List Token → Option Reading
  | r, [] => some r
  | r, t :: rest => (r.step t).bind fun next => run next rest

end Reading

/-- The document of a sequence of tokens. -/
def ofTokens? (ts : List Token) : Option Printed :=
  match (Reading.value []).run ts with
  | some (.done p []) => some p
  | _ => none

/-- The document that a text is. -/
def read? (text : String) : Option Printed := (tokens? text.toList).bind ofTokens?

/-! ## Nothing is lost -/

open Printed

/-- The tokens from the opening of a list or an object to where a value is due. -/
def Frame.tokens : Frame → List Token
  | items before => .openArr :: ended (before.map Printed.tokens)
  | members before name =>
    .openObj :: (ended (before.map oneMemberTokens) ++ [.str name, .colon])

/-- The tokens of all that is open; the innermost is the first of the stack. -/
def outerTokens (outer : List Frame) : List Token := outer.reverse.flatMap Frame.tokens

namespace Reading

/-- The tokens that are behind a reader. -/
def tokens : Reading → List Token
  | value outer => outerTokens outer
  | opened outer => outerTokens outer ++ [.openArr]
  | braced outer => outerTokens outer ++ [.openObj]
  | name before outer => outerTokens outer ++ .openObj :: ended (before.map oneMemberTokens)
  | colon before s outer =>
    outerTokens outer ++ .openObj :: (ended (before.map oneMemberTokens) ++ [.str s])
  | done p outer => outerTokens outer ++ p.tokens

theorem outerTokens_cons (frame : Frame) (outer : List Frame) :
    outerTokens (frame :: outer) = outerTokens outer ++ frame.tokens := by
  simp [outerTokens]

variable {r next : Reading} {t : Token} {ts : List Token} {p : Printed} {outer : List Frame}

theorem tokens_of_start (h : start outer t = some next) :
    next.tokens = outerTokens outer ++ [t] := by
  cases t with
  | word w => cases h; rfl
  | str s => cases h; rfl
  | openArr => cases h; rfl
  | openObj => cases h; rfl
  | _ => cases h

/-- A step puts one token behind the reader. -/
theorem tokens_of_step (h : r.step t = some next) : next.tokens = r.tokens ++ [t] := by
  cases r with
  | value outer => exact tokens_of_start h
  | opened outer =>
      have item (started : start (.items [] :: outer) t = some next) :
          next.tokens = outerTokens outer ++ [.openArr] ++ [t] := by
        rw [tokens_of_start started, outerTokens_cons]
        rfl
      cases t with
      | closeArr =>
          cases h
          simp [tokens, Printed.tokens, separated, Printed.itemTokens]
      | _ => exact item h
  | braced outer =>
      cases t with
      | closeObj =>
          cases h
          simp [tokens, Printed.tokens, separated, Printed.memberTokens]
      | str s =>
          cases h
          simp [tokens, ended]
      | _ => cases h
  | name before outer =>
      cases t with
      | str s =>
          cases h
          simp [tokens]
      | _ => cases h
  | colon before s outer =>
      cases t with
      | colon =>
          cases h
          simp [tokens, outerTokens_cons, Frame.tokens]
      | _ => cases h
  | done p outer =>
      cases outer with
      | nil => cases h
      | cons frame outer =>
          cases frame with
          | items before =>
              cases t with
              | comma =>
                  cases h
                  simp [tokens, outerTokens_cons, Frame.tokens, ended]
              | closeArr =>
                  cases h
                  simp [tokens, outerTokens_cons, Frame.tokens, Printed.tokens, itemTokens_eq_map,
                    separated_concat]
              | _ => cases h
          | members before s =>
              cases t with
              | comma =>
                  cases h
                  simp [tokens, outerTokens_cons, Frame.tokens, ended, oneMemberTokens]
              | closeObj =>
                  cases h
                  simp [tokens, outerTokens_cons, Frame.tokens, Printed.tokens,
                    memberTokens_eq_map, separated_concat, oneMemberTokens]
              | _ => cases h

theorem tokens_of_run (h : r.run ts = some next) : next.tokens = r.tokens ++ ts := by
  induction ts generalizing r with
  | nil =>
      cases h
      rw [List.append_nil]
  | cons t ts ih =>
      obtain ⟨between, stepped, h⟩ := Option.bind_eq_some_iff.mp h
      rw [ih h, tokens_of_step stepped, List.append_assoc, List.singleton_append]

end Reading

/-! ## Every document is read -/

/-- The first value of a list is read as one of a list of which nothing is read yet. -/
theorem run_opened (p : Printed) (outer : List Frame) (rest : List Token) :
    (Reading.opened outer).run (p.tokens ++ rest) =
      (Reading.value (.items [] :: outer)).run (p.tokens ++ rest) := by
  cases p <;> rfl

/-- The first member of an object is read like one behind a comma. -/
theorem run_braced (member : String × Printed) (outer : List Frame) (rest : List Token) :
    (Reading.braced outer).run (oneMemberTokens member ++ rest) =
      (Reading.name [] outer).run (oneMemberTokens member ++ rest) := by
  cases member
  rfl

mutual

/-- Where a value is due, the tokens of a document take the reader behind it. -/
theorem run_tokens (p : Printed) (outer : List Frame) (rest : List Token) :
    (Reading.value outer).run (p.tokens ++ rest) = (Reading.done p outer).run rest := by
  cases p with
  | word w => rfl
  | str s => rfl
  | arr items =>
      rw [Printed.tokens, List.cons_append, List.append_assoc]
      change (Reading.opened outer).run _ = _
      cases items with
      | nil => rfl
      | cons item items =>
          have all := run_itemTokens (item :: items) (by simp) [] outer rest
          rw [itemTokens] at all ⊢
          obtain ⟨more, parts⟩ := exists_separated_cons item.tokens (itemTokens items)
          rw [parts, List.append_assoc] at all ⊢
          rw [run_opened, all]
          rfl
  | obj members =>
      rw [Printed.tokens, List.cons_append, List.append_assoc]
      change (Reading.braced outer).run _ = _
      cases members with
      | nil => rfl
      | cons member members =>
          have all := run_memberTokens (member :: members) (by simp) [] outer rest
          rw [memberTokens] at all ⊢
          obtain ⟨more, parts⟩ :=
            exists_separated_cons (oneMemberTokens member) (memberTokens members)
          rw [parts, List.append_assoc] at all ⊢
          rw [run_braced, all]
          rfl
termination_by structural p

theorem run_itemTokens (items : List Printed) (some_ : items ≠ []) (before : List Printed)
    (outer : List Frame) (rest : List Token) :
    (Reading.value (.items before :: outer)).run
        (separated (itemTokens items) ++ ([.closeArr] ++ rest)) =
      (Reading.done (.arr (before ++ items)) outer).run rest := by
  cases items with
  | nil => exact absurd rfl some_
  | cons item items =>
      cases items with
      | nil =>
          have here := run_tokens item (.items before :: outer) (.closeArr :: rest)
          exact here
      | cons next items =>
          have here := run_tokens item (.items before :: outer)
            (.comma :: (separated (itemTokens (next :: items)) ++ ([.closeArr] ++ rest)))
          have others := run_itemTokens (next :: items) (by simp) (before ++ [item]) outer rest
          rw [itemTokens, itemTokens, separated, List.append_assoc, List.cons_append]
          rw [itemTokens] at here others
          rw [here]
          change (Reading.value (.items (before ++ [item]) :: outer)).run _ = _
          rw [others, List.append_assoc]
          rfl
termination_by structural items

theorem run_memberTokens (members : List (String × Printed)) (some_ : members ≠ [])
    (before : List (String × Printed)) (outer : List Frame) (rest : List Token) :
    (Reading.name before outer).run
        (separated (memberTokens members) ++ ([.closeObj] ++ rest)) =
      (Reading.done (.obj (before ++ members)) outer).run rest := by
  cases members with
  | nil => exact absurd rfl some_
  | cons member members =>
      cases members with
      | nil => exact run_oneMemberTokens member before outer (.closeObj :: rest)
      | cons next members =>
          have here := run_oneMemberTokens member before outer
            (.comma :: (separated (memberTokens (next :: members)) ++ ([.closeObj] ++ rest)))
          have others :=
            run_memberTokens (next :: members) (by simp) (before ++ [member]) outer rest
          rw [memberTokens, memberTokens, separated, List.append_assoc, List.cons_append]
          rw [memberTokens] at here others
          rw [here]
          change (Reading.name (before ++ [member]) outer).run _ = _
          rw [others, List.append_assoc]
          rfl
termination_by structural members

theorem run_oneMemberTokens (member : String × Printed) (before : List (String × Printed))
    (outer : List Frame) (rest : List Token) :
    (Reading.name before outer).run (oneMemberTokens member ++ rest) =
      (Reading.done member.2 (.members before member.1 :: outer)).run rest := by
  obtain ⟨name, item⟩ := member
  exact run_tokens item (.members before name :: outer) rest
termination_by structural member

end

/-- A document is read from its tokens and from no others. -/
theorem ofTokens?_eq_some_iff {ts : List Token} {p : Printed} :
    ofTokens? ts = some p ↔ ts = p.tokens := by
  constructor
  · intro h
    unfold ofTokens? at h
    split at h
    next q done =>
        obtain rfl := Option.some.inj h
        exact (Reading.tokens_of_run done).symm
    next => cases h
  · rintro rfl
    have all := run_tokens p [] []
    rw [List.append_nil] at all
    rw [ofTokens?, all]
    rfl

theorem read?_eq_some_iff {text : String} {p : Printed} :
    read? text = some p ↔ tokens? text.toList = some p.tokens := by
  simp [read?, Option.bind_eq_some_iff, ofTokens?_eq_some_iff]

example : read? "\x7b \"a\\u0062\" : [true, \x7b\x7d] \x7d" =
    some (.obj [("ab", .arr [.word (.ofBool true), .obj []])]) := by
  rfl

/-! ## Members -/

namespace Printed

def members : Printed → List (String × Printed)
  | .obj members => members
  | _ => []

/-- The value under a name. Of several members of one name the last one counts. -/
def member? (name : String) (p : Printed) : Option Printed :=
  (p.members.reverse.find? (·.1 == name)).map (·.2)

/-- The names of an object, each one once. -/
def names (p : Printed) : List String := (p.members.map (·.1)).eraseDups

variable {p q : Printed} {name : String}

theorem oneMemberTokens_subset {member : String × Printed} (h : member ∈ p.members) :
    oneMemberTokens member ⊆ p.tokens := by
  cases p with
  | obj members =>
      have inside : oneMemberTokens member ∈ memberTokens members := by
        rw [memberTokens_eq_map]
        exact List.mem_map_of_mem h
      rw [tokens]
      exact List.subset_cons_of_subset _ (List.subset_append_of_subset_left _
        (subset_separated inside))
  | _ => cases h

theorem mem_members_of_member? (h : p.member? name = some q) : (name, q) ∈ p.members := by
  obtain ⟨⟨found, q⟩, there, rfl⟩ := Option.map_eq_some_iff.mp h
  obtain rfl : found = name := by simpa using List.find?_some there
  exact List.mem_reverse.mp (List.mem_of_find?_eq_some there)

/-- The tokens of a member are among those of its object. -/
theorem tokens_subset_of_member? (h : p.member? name = some q) : q.tokens ⊆ p.tokens := by
  intro t ht
  exact oneMemberTokens_subset (mem_members_of_member? h) (.tail _ (.tail _ ht))

theorem mem_strings_of_names (h : name ∈ p.names) : name ∈ strings p.tokens := by
  obtain ⟨⟨name, item⟩, there, rfl⟩ := List.mem_map.mp (List.mem_eraseDups.mp h)
  exact List.mem_filterMap.mpr ⟨.str name, oneMemberTokens_subset there (.head _), rfl⟩

end Printed

end ClientForge.Json
