import ClientForge.Emission.Conversion
import ClientForge.Text.Literal

/-!
# Bodies of generated methods

The expressions of which generated methods consist, the same for both languages: raw
data under a key, dates read and written, entities constructed from raw data and
turned back into it, lists mapped item by item. Each language has a printer for them.
Keeping the bodies as data makes it plain which classes a file constructs and which
names it must import.
-/

namespace ClientForge.Emission

open ClientForge.Text

/-- Expressions over the raw data of an entity. -/
inductive Code
  /-- The argument of the method. -/
  | argument (name : String)
  /-- The data that the method was given or has bound. -/
  | data
  /-- The item of the list being mapped. -/
  | item
  /-- The raw value under a key of the entity. -/
  | stored (key : String)
  /-- A list, empty if there is none. -/
  | orEmpty (c : Code)
  /-- The date of a text. -/
  | dateOf (c : Code)
  /-- The text of a date. -/
  | dateText (c : Code)
  /-- An object of a class; a result also takes the key of its items. -/
  | construct (cls : String) (c : Code) (itemsKey : Option String)
  /-- The raw data of an entity. -/
  | rawOf (c : Code)
  /-- Nothing if the tested value is missing, else the other. -/
  | ifPresent (tested c : Code)
  /-- A list with each item replaced; the items may be known to be of a class. -/
  | mapped (list body : Code) (itemClass : Option String)
  deriving DecidableEq, Repr, Inhabited

/-- Bodies of generated methods. -/
inductive Body
  /-- Give an expression back. -/
  | give (c : Code)
  /-- Bind the data to one expression and give another back. -/
  | bindThenGive (source c : Code)
  /-- Write an expression under a key of the entity. -/
  | store (key : String) (c : Code)
  deriving DecidableEq, Repr, Inhabited

namespace Body

/-- The body that reads a property. -/
def reading (key : String) : Conversion → Body
  | .plain => .give (.stored key)
  | .date => .give (.dateOf (.stored key))
  | .dates => .give (.mapped (.orEmpty (.stored key)) (.dateOf .item) none)
  | .entity cls => .bindThenGive (.stored key) (.ifPresent .data (.construct cls .data none))
  | .entities cls => .give (.mapped (.orEmpty (.stored key)) (.construct cls .item none) none)

/-- The body that writes an argument to a property. -/
def writing (key argument : String) : Conversion → Body
  | .plain => .store key (.argument argument)
  | .date => .store key (.dateText (.argument argument))
  | .dates => .store key (.mapped (.argument argument) (.dateText .item) none)
  | .entity _ => .store key (.ifPresent (.argument argument) (.rawOf (.argument argument)))
  | .entities cls => .store key (.mapped (.argument argument) (.rawOf .item) (some cls))

/-- The data as a list; one language takes missing data for an empty list. -/
def dataList : Language → Code
  | .javascript => .orEmpty .data
  | .php => .data

/-- The body that makes an item of a result from its raw data. -/
def creating (l : Language) : Conversion → Body
  | .plain => .give .data
  | .date => .give (.dateOf .data)
  | .dates => .give (.mapped (dataList l) (.dateOf .item) none)
  | .entity cls => .give (.construct cls .data none)
  | .entities cls => .give (.mapped (dataList l) (.construct cls .item none) none)

end Body

namespace Code

/-- The classes that an expression constructs. -/
def constructs : Code → List String
  | argument _ => []
  | data => []
  | item => []
  | stored _ => []
  | orEmpty c => c.constructs
  | dateOf c => c.constructs
  | dateText c => c.constructs
  | construct cls c _ => cls :: c.constructs
  | rawOf c => c.constructs
  | ifPresent t c => t.constructs ++ c.constructs
  | mapped l b _ => l.constructs ++ b.constructs

/-- Whether an expression uses the date helper. -/
def usesDate : Code → Bool
  | argument _ => false
  | data => false
  | item => false
  | stored _ => false
  | orEmpty c => c.usesDate
  | dateOf _ => true
  | dateText _ => true
  | construct _ c _ => c.usesDate
  | rawOf c => c.usesDate
  | ifPresent t c => t.usesDate || c.usesDate
  | mapped l b _ => l.usesDate || b.usesDate

/-- The key that a construction passes besides the data. -/
def keyArgument : Option String → String
  | some key => ", " ++ Literal.quote key
  | none => ""

/-- An expression in JavaScript. -/
def javascript : Code → String
  | argument name => name
  | data => "data"
  | item => "item"
  | stored key => "this.get(" ++ Literal.quote key ++ ")"
  | orEmpty c => "(" ++ c.javascript ++ " || [])"
  | dateOf c => "DateFactory.create(" ++ c.javascript ++ ")"
  | dateText c => "DateFactory.format(" ++ c.javascript ++ ")"
  | construct cls c key => "new " ++ cls ++ "(" ++ c.javascript ++ keyArgument key ++ ")"
  | rawOf c => c.javascript ++ ".getData()"
  | ifPresent data c =>
    "data === null || typeof data === 'undefined' ? null : " ++ c.javascript
  | ifPresent t c => t.javascript ++ " === null ? null : " ++ c.javascript
  | mapped l b _ => l.javascript ++ ".map(item => " ++ b.javascript ++ ")"

/-- An expression in PHP. Classes are looked up in a namespace, given with its
separator. -/
def php (space : String) : Code → String
  | argument name => "$" ++ name
  | data => "$data"
  | item => "$item"
  | stored key => "$this->get(" ++ Literal.quote key ++ ")"
  | orEmpty c => c.php space ++ " ?? []"
  | dateOf c => "DateFactory::create(" ++ c.php space ++ ")"
  | dateText c => "DateFactory::format(" ++ c.php space ++ ")"
  | construct cls c key => "new " ++ space ++ cls ++ "(" ++ c.php space ++ keyArgument key ++ ")"
  | rawOf c => c.php space ++ "->getData()"
  | ifPresent t c => t.php space ++ " !== null ? " ++ c.php space ++ " : null"
  | mapped l (dateOf item) _ => "array_map([DateFactory::class, 'create'], " ++ l.php space ++ ")"
  | mapped l (dateText item) _ =>
    "array_map([DateFactory::class, 'format'], " ++ l.php space ++ ")"
  | mapped l b cls =>
    "array_map(function (" ++ ((cls.map (· ++ " ")).getD "") ++
      "$item) \x7b\n            return " ++ b.php space ++ ";\n        \x7d, " ++ l.php space ++ ")"

end Code

namespace Body

/-- The classes that a body constructs. -/
def constructs : Body → List String
  | give c => c.constructs
  | bindThenGive s c => s.constructs ++ c.constructs
  | store _ c => c.constructs

/-- Whether a body uses the date helper. -/
def usesDate : Body → Bool
  | give c => c.usesDate
  | bindThenGive s c => s.usesDate || c.usesDate
  | store _ c => c.usesDate

/-- The statements of a body in JavaScript. -/
def javascriptLines : Body → List String
  | give c => ["        return " ++ c.javascript ++ ";"]
  | bindThenGive s c =>
    ["        const data = " ++ s.javascript ++ ";", "        return " ++ c.javascript ++ ";"]
  | store key c => ["        this.set(" ++ Literal.quote key ++ ", " ++ c.javascript ++ ");"]

/-- The statements of a body in PHP; writing gives the object back. -/
def phpLines : Body → List String
  | give c => ["        return " ++ c.php "" ++ ";"]
  | bindThenGive s c =>
    ["        $data = " ++ s.php "" ++ ";", "", "        return " ++ c.php "" ++ ";"]
  | store key c =>
    ["        $this->set(" ++ Literal.quote key ++ ", " ++ c.php "" ++ ");", "",
      "        return $this;"]

end Body

end ClientForge.Emission
