import ClientForge.Yaml.Input

/-!
# Readings

A document may hold other documents in the place of its nodes. To read one is therefore
a conversation: either the value is known, or the document is at fault, or another
document is asked for by its name and its value decides how to go on. What a document
says is thus a function of its text alone, and where the others come from is left to
whoever answers.
-/

namespace ClientForge.Yaml

/-- The reading of a document. -/
inductive Reading (α : Type) where
  | done (x : α)
  | failed (f : Fault)
  | ask (target : String) (next : Value → Reading α)

namespace Reading

variable {α β : Type}

/-- Go on with what a reading gives. -/
def andThen (f : α → Reading β) : Reading α → Reading β
  | done x => f x
  | failed e => failed e
  | ask target next => ask target fun v => andThen f (next v)

instance : Monad Reading where
  pure := done
  bind r f := andThen f r

def ofExcept : Except Fault α → Reading α
  | .ok x => done x
  | .error e => failed e

/-- The value of another document. -/
def included (target : String) : Reading Value := ask target done

/-- Carry a reading through, with the values of other documents and the faults as given. -/
def run {m : Type → Type} [Monad m] (answer : String → m Value) (fail : Fault → m α) :
    Reading α → m α
  | done x => pure x
  | failed e => fail e
  | ask target next => do
    let v ← answer target
    run answer fail (next v)

end Reading

end ClientForge.Yaml
