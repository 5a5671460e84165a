import ClientForge.Proofs.Registry
import Mathlib.Data.List.Nodup
import Mathlib.Data.String.Basic

/-!
# Registering builders

Registration finds its place by halving, then inserts, replaces or refuses. Over
positions of one totally ordered family that is the same as seating the builder among
its sorted neighbours: whatever calls a registry has seen, its positions ascend, each
holds the builder that was last put there, and the order in which builders came to
different positions has left no trace.
-/

namespace ClientForge

/-- The entry of lowest position among those whose builders support a declaration. -/
def Registry.IsFirst (r : Registry) (name : String) (declaration : Value) (e : Placed) : Prop :=
  e ∈ r.entries ∧ e.builder.supports name declaration = true ∧
    ∀ q ∈ r.entries, q.builder.supports name declaration = true →
      q = e ∨ e.position.less? q.position = some true

/-- Where positions ascend, dispatch goes to the supporting builder of lowest position. -/
theorem Registry.isFirst_of_firstMatch {r : Registry} (ascending : r.Ascending) (name : String)
    (declaration : Value) :
    match r.firstMatch name declaration with
    | some b => ∃ e, r.IsFirst name declaration e ∧ e.builder = b
    | none => ∀ e ∈ r.entries, e.builder.supports name declaration = false := by
  have gives := r.gives_firstMatch name declaration
  cases found : r.firstMatch name declaration with
  | none => rwa [found] at gives
  | some b =>
      rw [found] at gives
      obtain ⟨before, e, after, entries, builder, supports, -, least⟩ := gives
      have member : e ∈ r.entries := by simp [entries]
      exact ⟨e, ⟨member, builder ▸ supports, least ascending⟩, builder⟩

/-- Positions of one totally ordered family, as values that compare like their keys. -/
structure Positions (α : Type) [LinearOrder α] where
  value : α → Value
  less? : ∀ a b, (value a).less? (value b) = some (decide (a < b))
  same : ∀ a b, (value a).same (value b) = decide (a = b)

namespace Positions

/-- Integers as positions. -/
def integers : Positions Int where
  value := .int
  less? a b := by
    simp [Value.less?, Value.number?, Number.Binary64.Place.ofInt, Number.Binary64.Place.lt]
  same a b := by
    simp [Value.same, Value.sameNumber, Value.number?, Number.Binary64.Place.ofInt,
      Number.Binary64.Place.eq, beq_eq_decide]

theorem codeLess_eq (as bs : List Char) : Text.codeLess as bs = decide (as < bs) := by
  induction as generalizing bs with
  | nil => cases bs <;> simp [Text.codeLess]
  | cons a as ih =>
      cases bs with
      | nil => simp [Text.codeLess]
      | cons b bs =>
          have first : decide (a.toNat < b.toNat) = decide (a < b) := rfl
          rw [Text.codeLess, ih, first]
          simp [List.cons_lt_cons_iff, beq_eq_decide]

/-- Texts as positions, in the order of their code points. -/
def texts : Positions String where
  value := .str
  less? a b := by
    rw [Value.less?, codeLess_eq]
    exact congrArg some (decide_eq_decide.mpr String.lt_iff_toList_lt.symm)
  same a b := by simp [Value.same, beq_eq_decide]

end Positions

/-- A builder asked for at a position. -/
structure Registration (α : Type) where
  builder : Builder
  position : α
  replace : Bool

/-- A call on a registry. -/
inductive RegistryCall (α : Type)
  | register (r : Registration α)
  | freeze

namespace Positions

variable {α : Type} [LinearOrder α] (keys : Positions α)

/-- What a call makes of a registry. -/
def perform (r : Registry) : RegistryCall α → Outcome Registry
  | .register a => (r.register a.builder (keys.value a.position) a.replace).map (·.1)
  | .freeze => .ok r.freeze

/-- The registry after a call. One that fails leaves it as it was. -/
def after (r : Registry) (c : RegistryCall α) : Registry :=
  match keys.perform r c with
  | .ok next => next
  | .error _ => r

/-- The registry after some calls. -/
def run (r : Registry) (calls : List (RegistryCall α)) : Registry := calls.foldl keys.after r

/-- The registration that a call makes, if it succeeds. -/
def made? (r : Registry) : RegistryCall α → Option (α × Builder)
  | .register a => (keys.perform r (.register a)).toOption.map fun _ => (a.position, a.builder)
  | .freeze => none

/-- The registrations that succeed among some calls, in their order. -/
def made (r : Registry) : List (RegistryCall α) → List (α × Builder)
  | [] => []
  | c :: rest => (keys.made? r c).toList ++ made (keys.after r c) rest

end Positions

/-- The builder of the last of some registrations at a position. -/
def lastAt {α : Type} [DecidableEq α] (p : α) (made : List (α × Builder)) : Option Builder :=
  (made.reverse.find? (·.1 = p)).map (·.2)

section Last

variable {α : Type} [DecidableEq α] {p : α} {b : Builder} {made more : List (α × Builder)}

@[simp] theorem lastAt_nil : lastAt p [] = none := rfl

@[simp] theorem lastAt_singleton (m : α × Builder) :
    lastAt p [m] = if m.1 = p then some m.2 else none := by
  by_cases here : m.1 = p <;> simp [lastAt, here]

theorem lastAt_append :
    lastAt p (made ++ more) = (lastAt p more).or (lastAt p made) := by
  rw [lastAt, lastAt, lastAt, List.reverse_append, List.find?_append]
  cases more.reverse.find? (·.1 = p) <;> rfl

theorem lastAt_eq_none_iff : lastAt p made = none ↔ p ∉ made.map (·.1) := by
  rw [lastAt, Option.map_eq_none_iff, List.find?_eq_none]
  simp only [List.mem_reverse, decide_eq_true_eq, List.mem_map, not_exists, not_and]

/-- Among registrations at different positions the last at a position is the only one. -/
theorem lastAt_eq_some_iff (once : (made.map (·.1)).Nodup) :
    lastAt p made = some b ↔ (p, b) ∈ made := by
  induction made with
  | nil => simp
  | cons m rest ih =>
      obtain ⟨fresh, once⟩ := List.nodup_cons.mp once
      rw [← List.singleton_append, lastAt_append, Option.or_eq_some_iff, ih once,
        List.mem_append, List.mem_singleton, lastAt_singleton]
      constructor
      · rintro (found | ⟨-, here⟩)
        · exact .inr found
        · split at here
          next same =>
            obtain rfl := Option.some.inj here
            exact .inl (by rw [← same])
          next => cases here
      · rintro (rfl | found)
        · exact .inr ⟨lastAt_eq_none_iff.mpr fresh, if_pos rfl⟩
        · exact .inl found

end Last

section Seats

variable {α : Type} [LinearOrder α] {p q : α} {b c : Builder} {slots : List (α × Builder)}

/-- Slots of which each stands at a higher position than the one before. -/
def Climbs (slots : List (α × Builder)) : Prop := slots.Pairwise fun s t => s.1 < t.1

/-- A builder seated at a position, in the place of the one that is there. -/
def seat (p : α) (b : Builder) (slots : List (α × Builder)) : List (α × Builder) :=
  slots.filter (·.1 < p) ++ (p, b) :: slots.filter (p < ·.1)

theorem mem_seat : (q, c) ∈ seat p b slots ↔ if q = p then c = b else (q, c) ∈ slots := by
  rw [seat, List.mem_append, List.mem_cons, List.mem_filter, List.mem_filter, Prod.mk.injEq]
  rcases lt_trichotomy q p with less | rfl | greater
  · simp [less, less.ne, less.asymm]
  · simp
  · simp [greater, greater.ne', greater.asymm]

theorem climbs_seat (h : Climbs slots) : Climbs (seat p b slots) := by
  have below : ∀ s ∈ slots.filter (·.1 < p), s.1 < p := by
    intro s hs
    simpa using (List.mem_filter.mp hs).2
  have above : ∀ s ∈ slots.filter (p < ·.1), p < s.1 := by
    intro s hs
    simpa using (List.mem_filter.mp hs).2
  refine List.pairwise_append.mpr ⟨h.filter _, List.pairwise_cons.mpr ⟨above, h.filter _⟩, ?_⟩
  intro s hs t ht
  rcases List.mem_cons.mp ht with rfl | ht
  · exact below s hs
  · exact (below s hs).trans (above t ht)

/-- Climbing slots are those below a position, the one at it if there is one, and those
above it. -/
theorem Climbs.around (h : Climbs slots) (p : α) :
    slots = slots.filter (·.1 < p) ++ ((slots.find? (·.1 = p)).toList ++
      slots.filter (p < ·.1)) := by
  induction slots with
  | nil => rfl
  | cons s rest ih =>
      obtain ⟨higher, tail⟩ := List.pairwise_cons.mp h
      by_cases less : s.1 < p
      · rw [List.filter_cons_of_pos (by simpa using less),
          List.find?_cons_of_neg (by simpa using less.ne),
          List.filter_cons_of_neg (by simpa using less.le), List.cons_append, ← ih tail]
      · have none_below : (s :: rest).filter (·.1 < p) = [] := by
          refine List.filter_eq_nil_iff.mpr fun t ht => ?_
          rcases List.mem_cons.mp ht with rfl | ht
          · simpa using less
          · simpa using (not_lt.mp less).trans (higher t ht).le
        have all_above : ∀ t ∈ rest, p < t.1 := fun t ht => (not_lt.mp less).trans_lt (higher t ht)
        have rest_above : rest.filter (p < ·.1) = rest :=
          List.filter_eq_self.mpr fun t ht => by simpa using all_above t ht
        rw [none_below, List.nil_append]
        by_cases here : s.1 = p
        · rw [List.find?_cons_of_pos (by simpa using here),
            List.filter_cons_of_neg (by simp [here]), rest_above]
          rfl
        · have absent : (s :: rest).find? (·.1 = p) = none := by
            refine List.find?_eq_none.mpr fun t ht => ?_
            rcases List.mem_cons.mp ht with rfl | ht
            · simpa using here
            · simpa using (all_above t ht).ne'
          have above : p < s.1 := lt_of_le_of_ne (not_lt.mp less) (Ne.symm here)
          rw [absent, List.filter_cons_of_pos (by simpa using above), rest_above]
          rfl

/-- Climbing slots are determined by what stands where. -/
theorem Climbs.eq_of_mem_iff {others : List (α × Builder)} (h : Climbs slots) (k : Climbs others)
    (same : ∀ s, s ∈ slots ↔ s ∈ others) : slots = others := by
  have once {ss : List (α × Builder)} (climbs : Climbs ss) : ss.Nodup :=
    climbs.imp fun less same => (same ▸ less).false
  have perm : slots.Perm others := (List.perm_ext_iff_of_nodup (once h) (once k)).mpr same
  exact perm.eq_of_pairwise (fun s t _ _ less greater => absurd greater less.asymm) h k

end Seats

namespace Positions

variable {α : Type} [LinearOrder α] (keys : Positions α)

/-- The entry of a builder at a position. -/
def place (s : α × Builder) : Placed := ⟨keys.value s.1, s.2⟩

/-- Halving finds the end of the positions below the one that is looked for. -/
theorem lowerBound?_eq {x : α} {low high : List α} (below : ∀ a ∈ low, a < x)
    (above : ∀ a ∈ high, x ≤ a) {i j : Nat} (hi : i ≤ low.length) (hj : low.length ≤ j)
    (fits : j ≤ (low ++ high).length) :
    Registry.lowerBound? ((low ++ high).map keys.value).toArray (keys.value x) i j =
      some low.length := by
  induction size : j - i using Nat.strong_induction_on generalizing i j with
  | _ n ih =>
      rw [Registry.lowerBound?]
      split
      next less =>
        have inside : (i + j) / 2 < (low ++ high).length := by omega
        have found : (((low ++ high).map keys.value).toArray[(i + j) / 2]?.getD .null).less?
            (keys.value x) = some (decide ((low ++ high)[(i + j) / 2] < x)) := by
          rw [List.getElem?_toArray, List.getElem?_map, List.getElem?_eq_getElem inside,
            Option.map_some, Option.getD_some, keys.less?]
        simp only [found]
        by_cases left : (i + j) / 2 < low.length
        · have smaller : (low ++ high)[(i + j) / 2] < x := by
            rw [List.getElem_append_left left]
            exact below _ (List.getElem_mem left)
          simp only [smaller, decide_true]
          exact ih _ (by omega) (by omega) hj fits rfl
        · have notSmaller : ¬ (low ++ high)[(i + j) / 2] < x := by
            rw [List.getElem_append_right (by omega)]
            exact not_lt.mpr (above _ (List.getElem_mem _))
          simp only [notSmaller, decide_false]
          exact ih _ (by omega) hi (by omega) (by omega) rfl
      next done => exact congrArg some (by omega)

/-- A registry holds builders at positions of the family, in their order. -/
structure Holds (r : Registry) (slots : List (α × Builder)) : Prop where
  entries : r.entries = slots.map keys.place
  climbs : Climbs slots

variable {keys} {r : Registry} {slots : List (α × Builder)} {p : α} {b : Builder} {replace : Bool}

/-- Registration refuses a frozen registry and, unless it may replace, a position that is
taken; in all other cases it seats the builder. -/
theorem Holds.register_eq (h : keys.Holds r slots) :
    r.register b (keys.value p) replace =
      if r.frozen then .error (.registry .frozen (keys.value p) b.label)
      else match slots.find? (·.1 = p) with
        | none => .ok ({ r with entries := (seat p b slots).map keys.place }, none)
        | some s =>
            if replace then
              .ok ({ r with entries := (seat p b slots).map keys.place },
                some ⟨keys.value p, s.2, b⟩)
            else .error (.registry (.taken s.2.label) (keys.value p) b.label) := by
  rw [Registry.register]
  cases frozen : r.frozen with
  | true => simp
  | false =>
      let low := slots.filter (·.1 < p)
      let high := (slots.find? (·.1 = p)).toList ++ slots.filter (p < ·.1)
      have split : slots = low ++ high := h.climbs.around p
      have below : ∀ s ∈ low, s.1 < p := fun s hs => by simpa using (List.mem_filter.mp hs).2
      have above : ∀ s ∈ high, p ≤ s.1 := by
        intro s hs
        rcases List.mem_append.mp hs with hs | hs
        · have found := List.find?_some (Option.mem_toList.mp hs)
          exact (of_decide_eq_true found).ge
        · exact (of_decide_eq_true (List.mem_filter.mp hs).2).le
      have positions : r.entries.map (·.position) =
          (low.map (·.1) ++ high.map (·.1)).map keys.value := by
        rw [h.entries, split, ← List.map_append, List.map_map, List.map_map]
        rfl
      have index : Registry.lowerBound? (r.entries.map (·.position)).toArray (keys.value p) 0
          (r.entries.map (·.position)).toArray.size = some low.length := by
        rw [positions, keys.lowerBound?_eq (by simpa using below) (by simpa using above)] <;> simp
      have entries : r.entries = low.map keys.place ++ high.map keys.place := by
        rw [h.entries, split, List.map_append]
      have seated : (seat p b slots).map keys.place = low.map keys.place ++
          ⟨keys.value p, b⟩ :: (slots.filter (p < ·.1)).map keys.place := by
        rw [seat, List.map_append, List.map_cons]
        rfl
      have size : low.length = (low.map keys.place).length := (List.length_map _).symm
      simp only [Bool.false_eq_true, if_false, index]
      rw [entries, seated, size, List.getElem?_append_right le_rfl, Nat.sub_self]
      cases found : slots.find? (·.1 = p) with
      | some s =>
          have there : s.1 = p := by simpa using List.find?_some found
          have first : high = s :: slots.filter (p < ·.1) := by simp [high, found]
          have same : (keys.place s).position.same (keys.value p) = true := by
            simp [place, keys.same, there]
          simp only [first, List.map_cons, List.getElem?_cons_zero, same, if_true]
          rw [List.set_append_right _ _ le_rfl, Nat.sub_self, List.set_cons_zero]
          rfl
      | none =>
          have tail : high = slots.filter (p < ·.1) := by simp [high, found]
          cases rest : high with
          | nil => simp [← tail, rest]
          | cons s more =>
              have other : (keys.place s).position.same (keys.value p) = false := by
                have beyond : s ∈ slots.filter (p < ·.1) := tail ▸ rest ▸ List.mem_cons_self
                have greater : p < s.1 := by simpa using (List.mem_filter.mp beyond).2
                simp [place, keys.same, greater.ne']
              simp only [List.map_cons, List.getElem?_cons_zero, other, Bool.false_eq_true,
                if_false, List.take_left, List.drop_left, ← tail, rest]

/-- A registration succeeds unless the registry is frozen, or its position is taken and it
may not replace. -/
theorem Holds.register_eq_error_iff (h : keys.Holds r slots) :
    (∃ f, r.register b (keys.value p) replace = .error f) ↔
      r.frozen = true ∨ (p ∈ slots.map (·.1) ∧ replace = false) := by
  rw [h.register_eq]
  cases r.frozen with
  | true => simp
  | false =>
      cases found : slots.find? (·.1 = p) with
      | none =>
          have absent : p ∉ slots.map (·.1) := by
            rintro there
            obtain ⟨s, hs, here⟩ := List.mem_map.mp there
            exact List.find?_eq_none.mp found s hs (by simpa using here)
          simp [absent]
      | some s =>
          have there : p ∈ slots.map (·.1) := by
            have here : s.1 = p := by simpa using List.find?_some found
            exact here ▸ List.mem_map_of_mem (List.mem_of_find?_eq_some found)
          cases replace <;> simp [there]

/-- A registration that succeeds seats its builder. -/
theorem Holds.register_eq_ok (h : keys.Holds r slots) {next : Registry}
    {notice : Option Registry.Replacement}
    (made : r.register b (keys.value p) replace = .ok (next, notice)) :
    keys.Holds next (seat p b slots) ∧ next.frozen = r.frozen := by
  rw [h.register_eq] at made
  have seated : next = { r with entries := (seat p b slots).map keys.place } := by
    split at made
    · cases made
    · split at made
      · exact (Prod.mk.inj (Except.ok.inj made)).1.symm
      · split at made
        · exact (Prod.mk.inj (Except.ok.inj made)).1.symm
        · cases made
  exact ⟨⟨by rw [seated], climbs_seat h.climbs⟩, by rw [seated]⟩

/-- What a call changes: the position at which it registers a builder, if it succeeds, and
whether the registry takes more. -/
theorem Holds.after (h : keys.Holds r slots) (c : RegistryCall α) :
    ∃ next, keys.Holds (keys.after r c) next ∧
      ((keys.after r c).frozen = true ↔ c = .freeze ∨ r.frozen = true) ∧
      ∀ p b, (p, b) ∈ next ↔ match lastAt p (keys.made? r c).toList with
        | some d => b = d
        | none => (p, b) ∈ slots := by
  cases c with
  | freeze => exact ⟨slots, ⟨h.entries, h.climbs⟩, by simp [Positions.after, perform,
      Registry.freeze], fun p b => Iff.rfl⟩
  | register a =>
      rw [Positions.after, made?, perform]
      cases made : r.register a.builder (keys.value a.position) a.replace with
      | error f => exact ⟨slots, h, by simp [Except.map], fun p b => Iff.rfl⟩
      | ok result =>
          obtain ⟨seated, frozen⟩ := h.register_eq_ok made
          refine ⟨_, seated, by simp [Except.map, frozen], fun p b => ?_⟩
          rw [mem_seat]
          by_cases here : p = a.position
          · simp [Except.map, Except.toOption, here]
          · simp [Except.map, Except.toOption, here, Ne.symm here]

/-- What some calls leave: each position holds the builder of the last registration that
succeeded there, or what it held before if there was none. -/
theorem Holds.run (h : keys.Holds r slots) (calls : List (RegistryCall α)) :
    ∃ next, keys.Holds (keys.run r calls) next ∧
      ((keys.run r calls).frozen = true ↔ .freeze ∈ calls ∨ r.frozen = true) ∧
      ∀ p b, (p, b) ∈ next ↔ match lastAt p (keys.made r calls) with
        | some d => b = d
        | none => (p, b) ∈ slots := by
  induction calls generalizing r slots with
  | nil => exact ⟨slots, h, by simp [Positions.run], fun p b => Iff.rfl⟩
  | cons c rest ih =>
      obtain ⟨middle, held, frozen, first⟩ := h.after c
      obtain ⟨next, holds, closed, members⟩ := ih held
      refine ⟨next, holds, ?_, fun p b => ?_⟩
      · change (keys.run (keys.after r c) rest).frozen = true ↔ _
        rw [closed, frozen, List.mem_cons, eq_comm (a := c)]
        tauto
      · rw [members, Positions.made, lastAt_append]
        cases lastAt p (keys.made (keys.after r c) rest) with
        | some d => rfl
        | none => exact first p b

theorem value_injective : Function.Injective keys.value := by
  intro a b alike
  have own : (keys.value a).same (keys.value a) = true := by simp [keys.same a a]
  rw [show (keys.value a).same (keys.value a) = (keys.value a).same (keys.value b) by rw [alike],
    keys.same] at own
  exact of_decide_eq_true own

theorem mem_entries (h : keys.Holds r slots) {e : Placed} :
    e ∈ r.entries ↔ ∃ p, keys.value p = e.position ∧ (p, e.builder) ∈ slots := by
  rw [h.entries, List.mem_map]
  constructor
  · rintro ⟨s, hs, rfl⟩
    exact ⟨s.1, rfl, hs⟩
  · rintro ⟨p, here, member⟩
    exact ⟨(p, e.builder), member, by rw [place, here]⟩

theorem ascending (h : keys.Holds r slots) : r.Ascending := by
  rw [Registry.Ascending, h.entries, List.pairwise_map]
  refine h.climbs.imp fun less => ?_
  simp [place, keys.less?, less]

variable (keys)

theorem holds_empty : keys.Holds .empty [] := ⟨rfl, List.Pairwise.nil⟩

/-- Whether all of some registrations succeed, one after another. -/
def Succeeds (r : Registry) (asked : List (Registration α)) : Prop :=
  keys.made r (asked.map .register) = asked.map fun a => (a.position, a.builder)

variable {keys}

/-- Registrations at different positions leave the same entries in any order. -/
theorem Holds.entries_perm (h : keys.Holds r slots) {first second : List (Registration α)}
    (perm : first.Perm second) (once : (first.map (·.position)).Nodup)
    (succeeds : keys.Succeeds r first) (succeedsToo : keys.Succeeds r second) :
    (keys.run r (first.map .register)).entries = (keys.run r (second.map .register)).entries := by
  obtain ⟨one, holds, -, members⟩ := h.run (first.map .register)
  obtain ⟨other, holdsToo, -, membersToo⟩ := h.run (second.map .register)
  have last (p : α) : lastAt p (keys.made r (first.map .register)) =
      lastAt p (keys.made r (second.map .register)) := by
    have positions (asked : List (Registration α)) :
        (asked.map fun a => (a.position, a.builder)).map (·.1) = asked.map (·.position) :=
      List.map_map
    have onceToo : (second.map (·.position)).Nodup := (perm.map _).nodup_iff.mp once
    refine Option.ext fun b => ?_
    rw [succeeds, succeedsToo, lastAt_eq_some_iff (positions first ▸ once),
      lastAt_eq_some_iff (positions second ▸ onceToo)]
    exact (perm.map _).mem_iff
  have same : one = other := holds.climbs.eq_of_mem_iff holdsToo.climbs fun s => by
    rw [members, membersToo, last]
  rw [holds.entries, holdsToo.entries, same]

/-- Whatever calls a new registry has seen, its positions ascend strictly, and each holds
the builder of the last registration that succeeded there. A registration fails if the
registry is frozen, or if its position is taken and it may not replace, and then changes
nothing. Dispatch gives a declaration to the supporting builder of lowest position. Two
sequences of registrations at different positions that both succeed leave the same entries
if one is a rearrangement of the other. -/
theorem registry_of_calls (keys : Positions α) (calls : List (RegistryCall α)) :
    (keys.run .empty calls).Ascending ∧
      (∀ e, e ∈ (keys.run .empty calls).entries ↔
        ∃ p, keys.value p = e.position ∧ lastAt p (keys.made .empty calls) = some e.builder) ∧
      (∀ b p replace,
        (∃ f, (keys.run .empty calls).register b (keys.value p) replace = .error f) ↔
          .freeze ∈ calls ∨
            (∃ e ∈ (keys.run .empty calls).entries, e.position = keys.value p) ∧
              replace = false) ∧
      (∀ c f, keys.perform (keys.run .empty calls) c = .error f →
        keys.run .empty (calls ++ [c]) = keys.run .empty calls) ∧
      (∀ name declaration,
        match (keys.run .empty calls).firstMatch name declaration with
        | some b => ∃ e, (keys.run .empty calls).IsFirst name declaration e ∧ e.builder = b
        | none => ∀ e ∈ (keys.run .empty calls).entries,
            e.builder.supports name declaration = false) ∧
      ∀ first second : List (Registration α), first.Perm second →
        (first.map (·.position)).Nodup → keys.Succeeds (keys.run .empty calls) first →
        keys.Succeeds (keys.run .empty calls) second →
          (keys.run .empty (calls ++ first.map .register)).entries =
            (keys.run .empty (calls ++ second.map .register)).entries := by
  obtain ⟨slots, holds, frozen, members⟩ := keys.holds_empty.run calls
  have entries : ∀ e, e ∈ (keys.run .empty calls).entries ↔
      ∃ p, keys.value p = e.position ∧ lastAt p (keys.made .empty calls) = some e.builder := by
    intro e
    rw [mem_entries holds]
    refine exists_congr fun p => and_congr_right fun _ => ?_
    rw [members]
    cases lastAt p (keys.made .empty calls) with
    | none => simp
    | some b => simp [eq_comm]
  refine ⟨ascending holds, entries, ?_, ?_, ?_, ?_⟩
  · intro b p replace
    have taken : p ∈ slots.map (·.1) ↔
        ∃ e ∈ (keys.run .empty calls).entries, e.position = keys.value p := by
      rw [holds.entries]
      simp [place, keys.value_injective.eq_iff]
    rw [holds.register_eq_error_iff, frozen, taken]
    simp [Registry.empty]
  · intro c f failed
    have last : keys.run .empty (calls ++ [c]) = keys.after (keys.run .empty calls) c :=
      List.foldl_append ..
    rw [last, Positions.after, failed]
  · exact fun name declaration => Registry.isFirst_of_firstMatch (ascending holds) ..
  · intro first second perm once succeeds succeedsToo
    have joined (asked : List (Registration α)) : keys.run .empty (calls ++ asked.map .register) =
        keys.run (keys.run .empty calls) (asked.map .register) := List.foldl_append ..
    rw [joined, joined]
    exact holds.entries_perm perm once succeeds succeedsToo

/-- A taken position refuses a builder and stays as it was, and two builders at text
positions may come in either order. -/
theorem arrivals_in_either_order :
    integers.run .empty [.register ⟨.object, 500, false⟩, .register ⟨.filter, 500, false⟩] =
        integers.run .empty [.register ⟨.object, 500, false⟩] ∧
      (texts.run .empty
          ([.register ⟨.result, "c", false⟩] ++
            [⟨.object, "b", false⟩, ⟨.filter, "c", true⟩].map .register)).entries =
        (texts.run .empty
          ([.register ⟨.result, "c", false⟩] ++
            [⟨.filter, "c", true⟩, ⟨.object, "b", false⟩].map .register)).entries := by
  obtain ⟨-, -, -, unchanged, -⟩ := registry_of_calls integers [.register ⟨.object, 500, false⟩]
  obtain ⟨-, -, -, -, -, rearranged⟩ := registry_of_calls texts [.register ⟨.result, "c", false⟩]
  have refused : integers.perform (integers.run .empty [.register ⟨.object, 500, false⟩])
      (.register ⟨.filter, 500, false⟩) =
        .error (.registry (.taken Builder.object.label) (.int 500) Builder.filter.label) := by
    with_unfolding_all rfl
  refine ⟨unchanged _ _ refused, ?_⟩
  refine rearranged _ _ (List.Perm.swap _ _ _) (by decide) ?first ?second
  case first => with_unfolding_all rfl
  case second => with_unfolding_all rfl

/-- The standard registry is what registering its five builders leaves. -/
example : integers.run .empty [.register ⟨.object, 500, false⟩, .register ⟨.trait, 400, false⟩,
    .register ⟨.enumeration, 300, false⟩, .register ⟨.result, 200, false⟩,
    .register ⟨.filter, 100, false⟩] = .standard := by
  with_unfolding_all rfl

end Positions

end ClientForge
