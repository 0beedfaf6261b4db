import AuditRelay.Decimal.Double
import AuditRelay.Named

/-!
# AuditRelay.Json.Basic — JSON values

A value is a tree. Numbers are whole numbers of 64 bits, signed or not, or doubles. The members of
an object are kept in the order of their names, each name once; `Json.IsOrdered` says it of a whole
tree. A tree that only shows how a text is built need not be ordered. `Json.depth` is the number of
containers that stand inside each other.
-/

namespace AuditRelay

/-- A number is whole, between `-2 ^ 63` and `2 ^ 64 - 1`, or a double. -/
inductive Number where
  | int (n : Int)
  | real (d : Double)
  deriving DecidableEq, Repr, Inhabited

/-- A JSON value. -/
inductive Json where
  | null
  | bool (b : Bool)
  | number (n : Number)
  | string (s : String)
  | array (items : List Json)
  | object (members : List (String × Json))
  deriving Repr, Inhabited

/-- The members of an object. -/
abbrev Members := Named Json

namespace Json

mutual

/-- Equality of trees, decided member by member. -/
def decEq : (a b : Json) → Decidable (a = b)
  | .null, .null => isTrue rfl
  | .bool a, .bool b =>
    if h : a = b then isTrue (h ▸ rfl) else isFalse fun e => h (by injection e)
  | .number a, .number b =>
    if h : a = b then isTrue (h ▸ rfl) else isFalse fun e => h (by injection e)
  | .string a, .string b =>
    if h : a = b then isTrue (h ▸ rfl) else isFalse fun e => h (by injection e)
  | .array a, .array b =>
    match decEqItems a b with
    | isTrue h => isTrue (h ▸ rfl)
    | isFalse h => isFalse fun e => h (by injection e)
  | .object a, .object b =>
    match decEqMembers a b with
    | isTrue h => isTrue (h ▸ rfl)
    | isFalse h => isFalse fun e => h (by injection e)
  | .null, .bool _ | .null, .number _ | .null, .string _ | .null, .array _ | .null, .object _
  | .bool _, .null | .bool _, .number _ | .bool _, .string _ | .bool _, .array _
  | .bool _, .object _
  | .number _, .null | .number _, .bool _ | .number _, .string _ | .number _, .array _
  | .number _, .object _
  | .string _, .null | .string _, .bool _ | .string _, .number _ | .string _, .array _
  | .string _, .object _
  | .array _, .null | .array _, .bool _ | .array _, .number _ | .array _, .string _
  | .array _, .object _
  | .object _, .null | .object _, .bool _ | .object _, .number _ | .object _, .string _
  | .object _, .array _ => isFalse (by intro e; injection e)

def decEqItems : (a b : List Json) → Decidable (a = b)
  | [], [] => isTrue rfl
  | a :: as, b :: bs =>
    match decEq a b, decEqItems as bs with
    | isTrue h, isTrue t => isTrue (h ▸ t ▸ rfl)
    | isFalse h, _ => isFalse fun e => h (by injection e)
    | _, isFalse t => isFalse fun e => t (by injection e)
  | [], _ :: _ | _ :: _, [] => isFalse (by intro e; injection e)

def decEqMembers : (a b : List (String × Json)) → Decidable (a = b)
  | [], [] => isTrue rfl
  | (k, a) :: as, (l, b) :: bs =>
    if hk : k = l then
      match decEq a b, decEqMembers as bs with
      | isTrue h, isTrue t => isTrue (hk ▸ h ▸ t ▸ rfl)
      | isFalse h, _ => isFalse fun e => h (by injection e with e _; injection e)
      | _, isFalse t => isFalse fun e => t (by injection e)
    else isFalse fun e => hk (by injection e with e _; injection e)
  | [], _ :: _ | _ :: _, [] => isFalse (by intro e; injection e)

end

instance : DecidableEq Json := decEq

mutual

/-- Every object of the tree has its members in order. -/
def IsOrdered : Json → Prop
  | .array items => AllOrdered items
  | .object members => Named.IsOrdered members ∧ MembersOrdered members
  | .null | .bool _ | .number _ | .string _ => True

def AllOrdered : List Json → Prop
  | [] => True
  | v :: vs => v.IsOrdered ∧ AllOrdered vs

def MembersOrdered : List (String × Json) → Prop
  | [] => True
  | (_, v) :: ms => v.IsOrdered ∧ MembersOrdered ms

end

mutual

/-- How many containers stand inside each other at most. -/
def depth : Json → Nat
  | .array items => depthItems items + 1
  | .object members => depthMembers members + 1
  | .null | .bool _ | .number _ | .string _ => 0

def depthItems : List Json → Nat
  | [] => 0
  | v :: vs => max v.depth (depthItems vs)

def depthMembers : List (String × Json) → Nat
  | [] => 0
  | (_, v) :: ms => max v.depth (depthMembers ms)

end

end Json

end AuditRelay
