import Listing.Failure
import Listing.Request
import Listing.Text.Parts

namespace Listing

inductive Operator
  | contains
  | lacks
  | startsWith
  | endsWith
  | equal
  | unequal
  | greater
  | greaterEqual
  | less
  | lessEqual
  | oneOf
  | noneOf
  | null
  | notNull
  | has
  deriving DecidableEq

namespace Operator

def all : List Operator :=
  [.contains, .lacks, .startsWith, .endsWith, .equal, .unequal, .greater, .greaterEqual, .less,
    .lessEqual, .oneOf, .noneOf, .null, .notNull, .has]

def code : Operator → String
  | .contains => "ct"
  | .lacks => "nct"
  | .startsWith => "sw"
  | .endsWith => "ew"
  | .equal => "eq"
  | .unequal => "ne"
  | .greater => "gt"
  | .greaterEqual => "ge"
  | .less => "lt"
  | .lessEqual => "le"
  | .oneOf => "in"
  | .noneOf => "nin"
  | .null => "null"
  | .notNull => "nnull"
  | .has => "has"

def ofCode (code : String) : Except Failure Operator :=
  match all.find? (·.code == code) with
  | some op => .ok op
  | none => .error (.unsupportedOperator code)

end Operator

inductive Comparison
  | like
  | notLike
  | equal
  | unequal
  | greater
  | greaterEqual
  | less
  | lessEqual
  deriving DecidableEq

namespace Comparison

def all : List Comparison :=
  [.like, .notLike, .equal, .unequal, .greater, .greaterEqual, .less, .lessEqual]

def symbol : Comparison → String
  | .like => "LIKE"
  | .notLike => "NOT LIKE"
  | .equal => "="
  | .unequal => "!="
  | .greater => ">"
  | .greaterEqual => ">="
  | .less => "<"
  | .lessEqual => "<="

def keyword : Comparison → String
  | .unequal => "<>"
  | op => op.symbol

def ofSymbol (symbol : String) : Except Failure Comparison :=
  match all.find? (·.symbol == symbol) with
  | some op => .ok op
  | none => .error (.unsupportedOperator symbol)

end Comparison

/-- A filter whose operator is known and whose value has been taken apart. -/
inductive Test
  | compare (field : String) (op : Comparison) (value : String)
  | oneOf (field : String) (values : List String)
  | noneOf (field : String) (values : List String)
  | null (field : String)
  | notNull (field : String)
  | has (chain : String)
  deriving DecidableEq

structure Predicate where
  test : Test
  connective : Connective
  deriving DecidableEq

def Filter.test (separator : Char) (f : Filter) : Operator → Test
  | .contains => .compare f.field .like ("%" ++ f.value ++ "%")
  | .lacks => .compare f.field .notLike ("%" ++ f.value ++ "%")
  | .startsWith => .compare f.field .like (f.value ++ "%")
  | .endsWith => .compare f.field .like ("%" ++ f.value)
  | .equal => .compare f.field .equal f.value
  | .unequal => .compare f.field .unequal f.value
  | .greater => .compare f.field .greater f.value
  | .greaterEqual => .compare f.field .greaterEqual f.value
  | .less => .compare f.field .less f.value
  | .lessEqual => .compare f.field .lessEqual f.value
  | .oneOf => .oneOf f.field (Text.parts separator f.value)
  | .noneOf => .noneOf f.field (Text.parts separator f.value)
  | .null => .null f.field
  | .notNull => .notNull f.field
  | .has => .has f.field

def Filter.predicate (separator : Char) (f : Filter) : Except Failure Predicate :=
  (Operator.ofCode f.operator).map fun op ↦ ⟨f.test separator op, f.connective⟩

end Listing
