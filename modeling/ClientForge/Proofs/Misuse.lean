import ClientForge.Proofs.Outcome

/-!
# What a computation needs

A failure is reported unless a value was misused on the way. What a computation needs of
its input is a condition without which it does not succeed, and under which no value is
misused: whatever else goes wrong is then reported. Such a condition is found step by
step, as the conditions of the steps one after another.
-/

namespace ClientForge

/-- Whether a failure is a misused value. -/
def Failure.IsMisuse (f : Failure) : Prop := ∃ cause, f = .misuse cause

/-- Exactly the other failures are reported. -/
theorem Failure.isMisuse_iff {f : Failure} : f.IsMisuse ↔ f.isReported = false := by
  cases f <;> simp [IsMisuse, isReported, report?]

@[simp] theorem Failure.isMisuse_misuse (cause : Misuse) : (Failure.misuse cause).IsMisuse :=
  ⟨cause, rfl⟩

@[simp] theorem Failure.not_isMisuse_emission (fault : EmissionFault) :
    ¬ (Failure.emission fault).IsMisuse := nofun

@[simp] theorem Failure.not_isMisuse_specification (fault : SpecificationFault)
    (source : Option String) : ¬ (Failure.specification fault source).IsMisuse := nofun

namespace Outcome

variable {α β : Type} {x : Outcome α} {g : α → Outcome β} {f : Failure} {cause : Misuse}
  {P Q : Prop}

/-- A computation that ends because a value was misused. -/
def Misuses (x : Outcome α) : Prop := ∃ cause, x = .error (.misuse cause)

/-- A computation that does not fail because a value was misused. -/
abbrev MisusesNothing (x : Outcome α) : Prop := x.Avoids Failure.IsMisuse

theorem misusesNothing_iff : MisusesNothing x ↔ ¬ Misuses x := by
  constructor
  · rintro avoids ⟨cause, rfl⟩
    exact avoids _ rfl ⟨cause, rfl⟩
  · rintro never f rfl ⟨cause, rfl⟩
    exact never ⟨cause, rfl⟩

@[simp] theorem misuses_error_iff : Misuses (.error f : Outcome α) ↔ f.IsMisuse := by
  simp [Misuses, Failure.IsMisuse]

@[simp] theorem misuses_misused : Misuses (misused cause : Outcome α) := ⟨cause, rfl⟩

@[simp] theorem not_misuses_ok (a : α) : ¬ Misuses (.ok a : Outcome α) := nofun

theorem misuses_bind_iff : Misuses (x >>= g) ↔ Misuses x ∨ ∃ a, x = .ok a ∧ Misuses (g a) := by
  cases x with
  | error e => simp
  | ok a => simp

/-- A computation that needs a condition: it succeeds only under it, and under it no value
is misused. -/
structure Needs (x : Outcome α) (P : Prop) : Prop where
  holds : ∀ a, x = .ok a → P
  misusesNothing : P → MisusesNothing x

namespace Needs

theorem of_misusesNothing (never : MisusesNothing x) : Needs x True :=
  ⟨fun _ _ => trivial, fun _ => never⟩

theorem ok (a : α) : Needs (.ok a : Outcome α) True := of_misusesNothing (.ok a)

/-- A failure that is reported fits any condition. -/
theorem error (reported : f.isReported = true) (P : Prop) : Needs (.error f : Outcome α) P := by
  refine ⟨nofun, fun _ => Avoids.error_iff.mpr ?_⟩
  rw [Failure.isMisuse_iff, reported]
  exact Bool.noConfusion

theorem misused (never : ¬ P) : Needs (ClientForge.misused cause : Outcome α) P :=
  ⟨nofun, fun holds => absurd holds never⟩

theorem congr (needs : Needs x P) (same : P ↔ Q) : Needs x Q :=
  ⟨fun a done => same.mp (needs.holds a done), fun q => needs.misusesNothing (same.mpr q)⟩

theorem bind (first : Needs x P) (rest : ∀ a, x = .ok a → Needs (g a) Q) :
    Needs (x >>= g) (P ∧ Q) := by
  refine ⟨fun b done => ?_, fun ⟨p, q⟩ => ?_⟩
  · obtain ⟨a, given, done⟩ := bind_eq_ok.mp done
    exact ⟨first.holds a given, (rest a given).holds b done⟩
  · exact Avoids.bind (first.misusesNothing p) fun a given => (rest a given).misusesNothing q

/-- What a second step needs may depend on what the first one gives. -/
theorem bind_each {Q : α → Prop} (first : Needs x P) (rest : ∀ a, x = .ok a → Needs (g a) (Q a)) :
    Needs (x >>= g) (P ∧ ∀ a, x = .ok a → Q a) := by
  refine ⟨fun b done => ?_, fun ⟨p, q⟩ => ?_⟩
  · obtain ⟨a, given, done⟩ := bind_eq_ok.mp done
    refine ⟨first.holds a given, fun other same => ?_⟩
    obtain rfl := Except.ok.inj (given.symm.trans same)
    exact (rest a given).holds b done
  · exact Avoids.bind (first.misusesNothing p) fun a given =>
      (rest a given).misusesNothing (q a given)

/-- What follows without needing anything does not count. -/
theorem map (first : Needs x P) (h : α → β) : Needs (x >>= fun a => pure (h a)) P :=
  (first.bind fun a _ => ok (h a)).congr (and_iff_left trivial)

theorem needWritable (vs : List Value) :
    Needs (ClientForge.needWritable vs) (Value.areWritable vs = true) := by
  unfold ClientForge.needWritable
  split
  next writable => exact (ok ()).congr (iff_of_true trivial writable)
  next unwritable => exact misused unwritable

theorem written (v : Value) : Needs (ClientForge.written v) (Value.isWritable v = true) := by
  refine ((needWritable [v]).map fun _ => v.text).congr ?_
  rw [Value.areWritable, Value.areWritable, Bool.and_true]

end Needs

end Outcome

end ClientForge
