/-
# LiandanluNative.Value — the Python values the runtime passes around, and their JSON form.

Arguments, results, evidence and event payloads are arbitrary Python objects until they are written
to the database, where `json.dumps` either raises or produces a text.  A text is represented here by
the value `json.loads` reads back from it: `jsonDumps v = some w` says that dumping `v` succeeds and
loading the text gives `w` (tuples have become lists, dictionary keys strings).  `jsonDumps v =
none` is the `TypeError` of an object JSON cannot carry.

A Python text may hold lone surrogates, which are no characters here.  The last code points, which
are private, stand for them (`encodable`): a text without one can be encoded.

Exceptions are values too: `Exc` keeps the class and the text, and `Exc.isException` says whether
`except Exception` would catch it.  What `str`, `float` and `str.lower` print or parse is left to a
parameter (`Builtins`).
-/
import Mathlib.Data.Rat.Defs
import Mathlib.Algebra.Order.Ring.Rat

namespace LiandanluNative

/-! ## Texts -/

/-- Whether a text can be encoded. The 2048 code points from `0x10F800` on stand for the lone
surrogates, which no encoding takes. -/
def encodable (text : String) : Bool := text.toList.all (fun c => decide (c.toNat < 0x10F800))

/-! ## Values -/

/-- A dictionary key. `float` and `other` keep what `str()` prints. -/
inductive PyKey where
  | none
  | bool (b : Bool)
  | int (n : Int)
  | float (text : String)
  | str (s : String)
  | other (text : String)
  deriving DecidableEq, Repr

/-- A value. A float without a value is a NaN or an infinity; `other` is an object that is neither a
JSON value nor a container. -/
inductive PyVal where
  | none
  | bool (b : Bool)
  | int (n : Int)
  | float (x : Option ℚ)
  | str (s : String)
  | list (xs : List PyVal)
  | tuple (xs : List PyVal)
  | dict (items : List (PyKey × PyVal))
  | other (tag : Nat)
  deriving Inhabited

/-- `str(key)`. -/
def PyKey.toStr : PyKey → String
  | .none => "None"
  | .bool true => "True"
  | .bool false => "False"
  | .int n => toString n
  | .float text => text
  | .str s => s
  | .other text => text

/-- A key that is a string. -/
def PyKey.text? : PyKey → Option String
  | .str s => some s
  | _ => Option.none

/-- The key as a value, the way iterating a dictionary yields it. -/
def PyKey.toVal : PyKey → PyVal
  | .none => .none
  | .bool b => .bool b
  | .int n => .int n
  | .float _ => .float Option.none
  | .str s => .str s
  | .other _ => .other 0

namespace PyVal

/-- `bool(value)`. -/
def truthy : PyVal → Bool
  | .none => false
  | .bool b => b
  | .int n => n != 0
  | .float (some x) => x != 0
  | .float Option.none => true
  | .str s => s != ""
  | .list xs => !xs.isEmpty
  | .tuple xs => !xs.isEmpty
  | .dict items => !items.isEmpty
  | .other _ => true

/-- `iter(value)`, or `none` where Python raises `TypeError`. -/
def iterate : PyVal → Option (List PyVal)
  | .str s => some (s.toList.map (fun c => .str (String.singleton c)))
  | .list xs => some xs
  | .tuple xs => some xs
  | .dict items => some (items.map (fun item => item.1.toVal))
  | _ => Option.none

/-- `items[name]` on the items of a dictionary, or `none` where Python raises `KeyError`. -/
def item? (name : String) (items : List (PyKey × PyVal)) : Option PyVal :=
  (items.find? (fun item => decide (item.1 = .str name))).map Prod.snd

/-- `items.get(name, default)` -/
def lookup (name : String) (default : PyVal) (items : List (PyKey × PyVal)) : PyVal :=
  (item? name items).getD default

/-! ## JSON

What `json.loads` gives of what `json.dumps` wrote: tuples become lists, and keys become texts.
-/

/-- The JSON name of a dictionary key. -/
def jsonKey : PyKey → Option String
  | .none => some "null"
  | .bool true => some "true"
  | .bool false => some "false"
  | .int n => some (toString n)
  | .float text => some text
  | .str s => some s
  | .other _ => Option.none

mutual

/-- `json.loads(json.dumps(value))`, or `none` where `json.dumps` raises `TypeError`. -/
def jsonDumps : PyVal → Option PyVal
  | .none => some .none
  | .bool b => some (.bool b)
  | .int n => some (.int n)
  | .float x => some (.float x)
  | .str s => some (.str s)
  | .list xs => (jsonDumpsList xs).map .list
  | .tuple xs => (jsonDumpsList xs).map .list
  | .dict items => (jsonDumpsItems items).map .dict
  | .other _ => Option.none

/-- The elements of an array. -/
def jsonDumpsList : List PyVal → Option (List PyVal)
  | [] => some []
  | x :: xs =>
      match jsonDumps x, jsonDumpsList xs with
      | some y, some ys => some (y :: ys)
      | _, _ => Option.none

/-- The members of an object; of two keys with one JSON name the later value stands, at the place of
the earlier. -/
def jsonDumpsItems : List (PyKey × PyVal) → Option (List (PyKey × PyVal))
  | [] => some []
  | (k, x) :: items =>
      match jsonKey k, jsonDumps x, jsonDumpsItems items with
      | some name, some y, some rest =>
          match rest.find? (fun item => decide (item.1 = .str name)) with
          | some later =>
              some (later :: rest.filter (fun item => decide (item.1 ≠ .str name)))
          | Option.none => some ((.str name, y) :: rest)
      | _, _, _ => Option.none

end

/-- The items of a dictionary with string keys. -/
def payload (fields : List (String × PyVal)) : List (PyKey × PyVal) :=
  fields.map (fun field => (.str field.1, field.2))

/-- A tuple of strings as a value. -/
def strings (xs : List String) : PyVal := .list (xs.map .str)

end PyVal

/-! ## Exceptions

The classes of the source's exceptions and of the language's, as far as a handler tells them apart.
-/

/-- The exception classes the runtime raises or lets through. -/
inductive ExcKind where
  | valueError
  | keyError
  | typeError
  | attributeError
  | permissionError
  | unknownObject
  | entityVersionConflict
  | staleWorld
  | invalidAction
  | leaseLost
  | budgetExceeded
  | overflowError
  /-- A text that cannot be encoded; the class is a subclass of `ValueError`. -/
  | unicodeEncodeError
  /-- A violated key or uniqueness constraint of the database. -/
  | integrityError
  /-- Raised by code outside the runtime (a capability or a model); its text is its `repr`. -/
  | external
  /-- A `BaseException` that is not an `Exception` (`KeyboardInterrupt`, `SystemExit`). -/
  | interrupt
  deriving DecidableEq, Repr

/-- An exception: its class and its text. -/
structure Exc where
  kind : ExcKind
  text : String
  deriving DecidableEq, Repr

/-- The class name. -/
def ExcKind.name : ExcKind → String
  | .valueError => "ValueError"
  | .keyError => "KeyError"
  | .typeError => "TypeError"
  | .attributeError => "AttributeError"
  | .permissionError => "PermissionError"
  | .unknownObject => "UnknownObject"
  | .entityVersionConflict => "EntityVersionConflict"
  | .staleWorld => "StaleWorld"
  | .invalidAction => "InvalidAction"
  | .leaseLost => "LeaseLost"
  | .budgetExceeded => "BudgetExceeded"
  | .overflowError => "OverflowError"
  | .unicodeEncodeError => "UnicodeEncodeError"
  | .integrityError => "IntegrityError"
  | .external => "Exception"
  | .interrupt => "BaseException"

/-- `repr(text)` of a string without quotes or control characters in it. -/
def strRepr (text : String) : String :=
  let quote := String.singleton (Char.ofNat 39)
  quote ++ text ++ quote

/-- `repr(exc)`. -/
def Exc.repr (e : Exc) : String :=
  match e.kind with
  | .external => e.text
  | .interrupt => e.text
  | kind => kind.name ++ "(" ++ strRepr e.text ++ ")"

/-- Caught by `except Exception`. -/
def Exc.isException (e : Exc) : Bool := decide (e.kind ≠ .interrupt)

/-! ## Built-ins -/

/-- The conversions of the language whose exact outcome no result here depends on: `str`, `float`
and `str.lower`. -/
structure Builtins where
  str : PyVal → String
  float : PyVal → Except Exc (Option ℚ)
  lower : String → String
  /-- `str(sorted(keys))` of keys that are not all strings, or the text of its `TypeError`. -/
  sortedKeys : List PyKey → Except String String

/-- Built-ins good enough for payloads of strings. -/
def plainBuiltins : Builtins where
  str := fun value =>
    match value with
    | .str text => text
    | _ => ""
  float := fun _ => .ok (some 1)
  lower := id
  sortedKeys := fun _ => .error "unorderable types"

/-- Identifiers in unary. -/
def tallyId (n : ℕ) : String := String.ofList (List.replicate n 'i')

theorem tallyId_injective : Function.Injective tallyId := by
  intro m n h
  have hlength := congrArg String.length h
  simpa [tallyId] using hlength

end LiandanluNative
