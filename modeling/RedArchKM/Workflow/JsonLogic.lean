import RedArchKM.Lib.JsonText

/-!
# JsonLogic

The evaluator of workflow conditions. A rule is an object with one key, the operator; everything else
is a literal. `and` and `or` stop at the first operand that decides them, other operators evaluate
all of theirs. An unknown operator raises, and so do operands that Python cannot compare.

Numbers, and what Python makes of other values as texts and in comparisons, are a structure.
-/

namespace RedArchKM.Workflow.JsonLogic

open Lib.JsonText

variable {ν : Type}

/-- Python's numbers, and what it does with values. -/
structure Python (ν : Type) where
  isFloat : ν → Bool
  ofBool : Bool → ν
  equal : ν → ν → Bool
  less : ν → ν → Bool
  zero : ν
  one : ν
  add : ν → ν → ν
  sub : ν → ν → ν
  mul : ν → ν → ν
  neg : ν → ν
  div : ν → ν → Option ν
  /-- `float(value)` of a number -/
  float : ν → Option ν
  /-- `float(value)` of a text -/
  parseFloat : Units → Option ν
  /-- `str(value)` of a value that is no text -/
  str : Value ν → Units
  /-- `a < b` of texts -/
  lessText : Units → Units → Bool
  /-- `a < b` of values that are neither numbers nor both texts -/
  lessThan : Value ν → Value ν → Option Bool

/-- What the results below need of Python: texts are in order, and not all are numbers. -/
structure Python.Lawful (python : Python ν) : Prop where
  asymm : ∀ a b, python.lessText a b = true → python.lessText b a = false
  connected : ∀ a b, python.lessText a b = false → python.lessText b a = false → a = b
  notFloat : ∃ text, text ≠ [] ∧ python.parseFloat text = none

inductive Operator where
  | var
  | missing
  | and
  | or
  | eq
  | ne
  | strictEq
  | strictNe
  | not
  | notNot
  | gt
  | ge
  | lt
  | le
  | isIn
  | add
  | sub
  | mul
  | div

def operators : List (Units × Operator) :=
  [(units "var", .var), (units "missing", .missing), (units "and", .and), (units "or", .or),
    (units "==", .eq), (units "!=", .ne), (units "===", .strictEq), (units "!==", .strictNe),
    (units "!", .not), (units "!!", .notNot), (units ">", .gt), (units ">=", .ge), (units "<", .lt),
    (units "<=", .le), (units "in", .isIn), (units "+", .add), (units "-", .sub), (units "*", .mul),
    (units "/", .div)]

section Evaluator

variable (python : Python ν)

mutual

/-- `a == b` -/
def equal : Value ν → Value ν → Bool
  | .null, .null => true
  | .bool a, .bool b => a == b
  | .bool a, .number b => python.equal (python.ofBool a) b
  | .number a, .bool b => python.equal a (python.ofBool b)
  | .number a, .number b => python.equal a b
  | .string a, .string b => a == b
  | .array as, .array bs => equalItems as bs
  | .object as, .object bs => as.length == bs.length && equalFields as bs
  | _, _ => false

def equalItems : List (Value ν) → List (Value ν) → Bool
  | [], [] => true
  | a :: as, b :: bs => equal a b && equalItems as bs
  | _, _ => false

/-- Every field is one of the others. -/
def equalFields : List (Units × Value ν) → List (Units × Value ν) → Bool
  | [], _ => true
  | (key, a) :: as, bs =>
    (match bs.lookup key with
      | some b => equal a b
      | none => false) && equalFields as bs

end

/-- `str(value)` -/
def str (value : Value ν) : Units :=
  match value with
  | .string text => text
  | _ => python.str value

def pathParts (path : Units) : List Units := path.splitOn '.'.toNat

/-- The walk of `_get_var` -/
def walk (absent : Value ν) : List Units → Value ν → Value ν
  | [], current => current
  | part :: parts, .object fields =>
    match fields.lookup part with
    | some value => walk absent parts value
    | none => absent
  | _ :: _, _ => absent

def getVar (data path absent : Value ν) : Value ν :=
  match path with
  | .null => data
  | .string [] => data
  | path => walk absent (pathParts (str python path)) data

def truthy : Value ν → Bool
  | .null => false
  | .bool value => value
  | .number value => !python.equal value (python.ofBool false)
  | .string text => !text.isEmpty
  | .array items => !items.isEmpty
  | .object fields => !fields.isEmpty

/-- `type(a) is type(b)` -/
def sameType : Value ν → Value ν → Bool
  | .null, .null => true
  | .bool _, .bool _ => true
  | .number a, .number b => python.isFloat a == python.isFloat b
  | .string _, .string _ => true
  | .array _, .array _ => true
  | .object _, .object _ => true
  | _, _ => false

def isNull : Value ν → Bool
  | .null => true
  | _ => false

def isBool : Value ν → Bool
  | .bool _ => true
  | _ => false

/-- `isinstance(value, (int, float))`; a truth value is an int. -/
def isNumber : Value ν → Bool
  | .number _ => true
  | .bool _ => true
  | _ => false

def looseEq (a b : Value ν) : Bool :=
  if sameType python a b then equal python a b
  else if isNull a || isNull b then isNull a && isNull b
  else if isBool a || isBool b then equal python a b
  else if isNumber a && isNumber b then equal python a b
  else str python a == str python b

def num : Value ν → Option ν
  | .bool value => python.float (python.ofBool value)
  | .null => python.float (python.ofBool false)
  | .string text =>
    if text.isEmpty then python.float (python.ofBool false) else python.parseFloat text
  | .number value => python.float value
  | .array _ => none
  | .object _ => none

/-- `a < b` of values of which neither is a number -/
def less : Value ν → Value ν → Option Bool
  | .string a, .string b => some (python.lessText a b)
  | a, b => python.lessThan a b

def cmp (a b : Value ν) : Option Ordering :=
  if isNumber a || isNumber b then
    (num python a).bind fun a => (num python b).map fun b =>
      if python.less a b then .lt else if python.less b a then .gt else .eq
  else
    (less python a b).bind fun isLess =>
      if isLess then some .lt
      else (less python b a).map fun isGreater => if isGreater then .gt else .eq

def contains (text part : Units) : Bool :=
  match text with
  | [] => part.isEmpty
  | _ :: rest => part.isPrefixOf text || contains rest part

/-- `args[0] in container if container is not None else False` -/
def isIn (needle container : Value ν) : Option Bool :=
  match container with
  | .null => some false
  | .array items => some (items.any (equal python needle))
  | .string text =>
    match needle with
    | .string part => some (contains text part)
    | _ => none
  | .object fields =>
    match needle with
    | .string key => some (fields.any fun field => field.1 == key)
    | .array _ => none
    | .object _ => none
    | _ => some false
  | .bool _ => none
  | .number _ => none

/-- Up to the first operand that decides; nothing where one raises. -/
def decided (decides : Bool) : Value ν → List (Option (Value ν)) → Option (Value ν)
  | result, [] => some result
  | _, none :: _ => none
  | _, some result :: rest =>
    if truthy python result = decides then some result else decided decides result rest

/-- The operators that evaluate all their operands. -/
def strict (operator : Operator) (args : List (Value ν)) : Option (Value ν) :=
  let ordered (holds : Ordering → Bool) : Option (Value ν) :=
    args[0]?.bind fun a => args[1]?.bind fun b => (cmp python a b).map fun order => .bool (holds order)
  let compared (holds : Value ν → Value ν → Bool) : Option (Value ν) :=
    args[0]?.bind fun a => args[1]?.map fun b => .bool (holds a b)
  match operator with
  | .eq => compared (looseEq python)
  | .ne => compared fun a b => !looseEq python a b
  | .strictEq => compared (equal python)
  | .strictNe => compared fun a b => !equal python a b
  | .not => args[0]?.map fun a => .bool (!truthy python a)
  | .notNot => args[0]?.map fun a => .bool (truthy python a)
  | .gt => ordered (· = .gt)
  | .ge => ordered (· ≠ .lt)
  | .lt => ordered (· = .lt)
  | .le => ordered (· ≠ .gt)
  | .isIn => args[0]?.bind fun a => args[1]?.bind fun b => (isIn python a b).map .bool
  | .add => (args.mapM (num python)).map fun nums => .number (nums.foldl python.add python.zero)
  | .sub =>
    args[0]?.bind fun a =>
      if args.length = 1 then (num python a).map fun a => .number (python.neg a)
      else (num python a).bind fun a => args[1]?.bind fun b => (num python b).map fun b =>
        .number (python.sub a b)
  | .mul => (args.mapM (num python)).map fun nums => .number (nums.foldl python.mul python.one)
  | .div =>
    args[0]?.bind fun a => (num python a).bind fun a => args[1]?.bind fun b =>
      (num python b).bind fun b => (python.div a b).map .number
  | .var => none
  | .missing => none
  | .and => none
  | .or => none

/-- What an operator gives for its raw operands and what they evaluate to. -/
def apply (data : Value ν) (op : Units) (values : List (Value ν))
    (results : List (Option (Value ν))) : Option (Value ν) :=
  match operators.lookup op with
  | some .var =>
    match results with
    | [] => some data
    | first :: _ => first.map fun path => getVar python data path (values[1]?.getD .null)
  | some .missing =>
    let keys := match values with
      | [.array keys] => keys
      | _ => values
    some (.array (keys.filter fun key => isNull (getVar python data key .null)))
  | some .and => decided python false .null results
  | some .or => decided python true .null results
  | some operator => (results.mapM id).bind (strict python operator)
  -- the operands are evaluated before the operator is refused
  | none => none

mutual

/-- `json_logic`, or nothing where it raises -/
def jsonLogic (data : Value ν) : Value ν → Option (Value ν)
  | .object [(op, .array values)] => apply python data op values (evaluated data values)
  | .object [(op, raw)] => apply python data op [raw] [jsonLogic data raw]
  | rule => some rule

def evaluated (data : Value ν) : List (Value ν) → List (Option (Value ν))
  | [] => []
  | value :: values => jsonLogic data value :: evaluated data values

end

end Evaluator

end RedArchKM.Workflow.JsonLogic
