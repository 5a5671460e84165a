import ClientForge.Failure
import Mathlib.Data.List.Forall2

/-!
# Computations that may fail

A computation of several steps succeeds if each step does, and fails as one of them
fails. The same holds of a computation that is repeated over a list. Which failures a
computation can end with is then a matter of its steps, and a computation avoids a kind
of failure if all of its steps avoid it. Likewise a computation gives what another one
gives if each of its steps does.
-/

namespace ClientForge.Outcome

variable {α β : Type} {x : Outcome α} {g : α → Outcome β} {f : Failure} {bad : Failure → Prop}

theorem bind_eq_ok {b : β} : (x >>= g) = .ok b ↔ ∃ a, x = .ok a ∧ g a = .ok b := by
  cases x with
  | error e => simp [bind, Except.bind]
  | ok a => simp [bind, Except.bind]

theorem bind_eq_error :
    (x >>= g) = .error f ↔ x = .error f ∨ ∃ a, x = .ok a ∧ g a = .error f := by
  cases x with
  | error e => simp [bind, Except.bind]
  | ok a => simp [bind, Except.bind]

@[simp] theorem ok_bind (a : α) (g : α → Outcome β) : ((.ok a : Outcome α) >>= g) = g a := rfl

@[simp] theorem error_bind (f : Failure) (g : α → Outcome β) :
    ((.error f : Outcome α) >>= g) = .error f := rfl

@[simp] theorem pure_eq (a : α) : (pure a : Outcome α) = .ok a := rfl

/-- Whether an outcome is a failure that is not reported. -/
def isUnreported : Outcome α → Bool
  | .error f => !f.isReported
  | .ok _ => false

theorem exists_of_isUnreported (h : isUnreported x = true) :
    ∃ f, x = .error f ∧ f.isReported = false := by
  cases x with
  | error f => exact ⟨f, rfl, by simpa [isUnreported] using h⟩
  | ok a => cases h

theorem text_of_written {v : Value} {s : String} (h : written v = .ok s) : s = v.text := by
  obtain ⟨-, -, h⟩ := bind_eq_ok.mp h
  exact (Except.ok.inj h).symm

/-- A repeated computation succeeds if it does so for each item. -/
theorem mapM_eq_ok {h : α → Outcome β} {as : List α} {bs : List β} :
    as.mapM h = .ok bs ↔ List.Forall₂ (fun a b => h a = .ok b) as bs := by
  induction as generalizing bs with
  | nil => cases bs <;> simp
  | cons a as ih =>
      rw [List.mapM_cons, bind_eq_ok]
      constructor
      · rintro ⟨b, first, rest⟩
        obtain ⟨others, tail, same⟩ := bind_eq_ok.mp rest
        obtain rfl := Except.ok.inj same
        exact .cons first (ih.mp tail)
      · intro all
        cases all with
        | cons first rest => exact ⟨_, first, bind_eq_ok.mpr ⟨_, ih.mpr rest, rfl⟩⟩

/-- Every item on the right of pointwise related lists has its partner on the left. -/
theorem exists_zip_right {R : α → β → Prop} {as : List α} {bs : List β}
    (h : List.Forall₂ R as bs) {b : β} (hb : b ∈ bs) : ∃ a, (a, b) ∈ as.zip bs ∧ R a b := by
  induction h with
  | nil => cases hb
  | @cons a c as bs head tail ih =>
      rcases List.mem_cons.mp hb with rfl | hb
      · exact ⟨a, List.mem_cons_self, head⟩
      · obtain ⟨d, pair, related⟩ := ih hb
        exact ⟨d, List.mem_cons_of_mem _ pair, related⟩

theorem exists_zip_left {R : α → β → Prop} {as : List α} {bs : List β}
    (h : List.Forall₂ R as bs) {a : α} (ha : a ∈ as) : ∃ b, (a, b) ∈ as.zip bs ∧ R a b := by
  induction h with
  | nil => cases ha
  | @cons c b as bs head tail ih =>
      rcases List.mem_cons.mp ha with rfl | ha
      · exact ⟨b, List.mem_cons_self, head⟩
      · obtain ⟨d, pair, related⟩ := ih ha
        exact ⟨d, List.mem_cons_of_mem _ pair, related⟩

/-- A computation that succeeds for each item can be repeated over all of them. -/
theorem exists_mapM_eq_ok {h : α → Outcome β} {as : List α}
    (each : ∀ a ∈ as, ∃ b, h a = .ok b) : ∃ bs, as.mapM h = .ok bs := by
  induction as with
  | nil => exact ⟨[], rfl⟩
  | cons a as ih =>
      obtain ⟨b, first⟩ := each a List.mem_cons_self
      obtain ⟨bs, rest⟩ := ih fun c hc => each c (List.mem_cons_of_mem _ hc)
      exact ⟨b :: bs, by simp [List.mapM_cons, first, rest]⟩

/-- A computation avoids some failures if it ends with none of them. -/
def Avoids (bad : Failure → Prop) (x : Outcome α) : Prop := ∀ f, x = .error f → ¬ bad f

namespace Avoids

@[simp] theorem ok (a : α) : Avoids bad (.ok a : Outcome α) := by
  intro f h
  cases h

@[simp] theorem error_iff : Avoids bad (.error f : Outcome α) ↔ ¬ bad f := by
  constructor
  · intro h
    exact h f rfl
  · intro h e he
    cases he
    exact h

theorem bind (first : Avoids bad x) (second : ∀ a, x = .ok a → Avoids bad (g a)) :
    Avoids bad (x >>= g) := by
  intro f h
  rcases bind_eq_error.mp h with h | ⟨a, ha, h⟩
  · exact first f h
  · exact second a ha f h

theorem map {h : α → β} (first : Avoids bad x) : Avoids bad (h <$> x) := by
  cases x with
  | error e => exact error_iff.mpr (first e rfl)
  | ok a => exact ok (h a)

theorem needWritable (allowed : ¬ bad (.misuse .badValue)) (vs : List Value) :
    Avoids bad (ClientForge.needWritable vs) := by
  unfold ClientForge.needWritable
  split
  · exact ok ()
  · exact error_iff.mpr allowed

theorem written (allowed : ¬ bad (.misuse .badValue)) (v : Value) :
    Avoids bad (ClientForge.written v) :=
  bind (needWritable allowed [v]) fun _ _ => ok _

end Avoids

/-- Whatever one computation gives, the other one gives as well. -/
def Carries (x y : Outcome α) : Prop := ∀ a, x = .ok a → y = .ok a

namespace Carries

theorem refl (x : Outcome α) : Carries x x := fun _ h => h

theorem bind {y : Outcome α} {h : α → Outcome β} (first : Carries x y)
    (rest : ∀ a, x = .ok a → Carries (g a) (h a)) : Carries (x >>= g) (y >>= h) := by
  intro b done
  obtain ⟨a, given, done⟩ := bind_eq_ok.mp done
  exact bind_eq_ok.mpr ⟨a, first a given, rest a given b done⟩

theorem map {y : Outcome α} {h : α → β} (first : Carries x y) :
    Carries (x.map h) (y.map h) := by
  intro b done
  cases x with
  | error f => cases done
  | ok a =>
      rw [first a rfl]
      exact done

theorem mapM {p q : α → Outcome β} (each : ∀ a, Carries (p a) (q a)) (as : List α) :
    Carries (as.mapM p) (as.mapM q) := by
  intro bs done
  rw [mapM_eq_ok] at done ⊢
  exact done.imp fun a b => each a b

end Carries

end ClientForge.Outcome
