import Mathlib.Algebra.Ring.Int.Defs
import Mathlib.Algebra.Ring.Nat
import Mathlib.Tactic.Common

/-!
# JSON values

A JSON text after parsing: strings are decoded, numbers keep their literal, and an object keeps its
members in document order with repeated names. What a reader makes of repeated names and of number
literals is the reader's own.
-/

inductive Json where
  | null
  | bool (value : Bool)
  | num (literal : String)
  | str (value : String)
  | arr (items : List Json)
  | obj (members : List (String × Json))
  deriving Repr, Inhabited

namespace Json

/-- The member a reader keeps that lets the last of several equal names win. -/
def lookup (members : List (String × Json)) (name : String) : Option Json :=
  (members.reverse.find? fun m => m.1 == name).map Prod.snd

def digitsValue (digits : List Char) : Nat :=
  digits.foldl (fun n c => 10 * n + (c.toNat - 48)) 0

/-- The exact value of a number literal, as a signed multiple of a power of ten. -/
structure Decimal where
  negative : Bool
  mantissa : Nat
  exponent : Int
  deriving DecidableEq, Repr

def exponentValue : List Char → Int
  | '-' :: digits => -(digitsValue digits : Int)
  | '+' :: digits => digitsValue digits
  | digits => digitsValue digits

def decimal (literal : String) : Decimal :=
  let negative := literal.toList.head? == some '-'
  let (significand, exponent) := (literal.toList.drop (if negative then 1 else 0)).span
    fun c => !(c == 'e' || c == 'E')
  let (whole, fraction) := significand.span (· != '.')
  { negative := negative
    mantissa := digitsValue (whole ++ fraction.drop 1)
    exponent := exponentValue (exponent.drop 1) - (fraction.drop 1).length }

/-- The integer part, rounding toward zero. -/
def Decimal.truncate (d : Decimal) : Int :=
  let magnitude : Nat :=
    if d.exponent < 0 then d.mantissa / 10 ^ d.exponent.natAbs
    else d.mantissa * 10 ^ d.exponent.natAbs
  if d.negative then -magnitude else magnitude

/-- The number literals of the grammar. -/
def isNumber (literal : String) : Bool :=
  let digits (cs : List Char) : Bool := !cs.isEmpty && cs.all Char.isDigit
  let unsigned := match literal.toList with
    | '-' :: rest => rest
    | cs => cs
  let (significand, exponent) := unsigned.span fun c => !(c == 'e' || c == 'E')
  let (whole, fraction) := significand.span (· != '.')
  digits whole && (whole.length == 1 || whole.head? != some '0') &&
    (fraction.isEmpty || digits (fraction.drop 1)) &&
    (exponent.isEmpty || match exponent.drop 1 with
      | '+' :: rest => digits rest
      | '-' :: rest => digits rest
      | rest => digits rest)

mutual

/-- Its number literals are numbers. -/
def wellFormed : Json → Bool
  | .num literal => isNumber literal
  | .arr items => wellFormedItems items
  | .obj members => wellFormedMembers members
  | _ => true

def wellFormedItems : List Json → Bool
  | [] => true
  | item :: rest => wellFormed item && wellFormedItems rest

def wellFormedMembers : List (String × Json) → Bool
  | [] => true
  | (_, item) :: rest => wellFormed item && wellFormedMembers rest

end

mutual

/-- The number literals in it, in document order. -/
def literals : Json → List String
  | .num literal => [literal]
  | .arr items => literalsItems items
  | .obj members => literalsMembers members
  | _ => []

def literalsItems : List Json → List String
  | [] => []
  | item :: rest => literals item ++ literalsItems rest

def literalsMembers : List (String × Json) → List String
  | [] => []
  | (_, item) :: rest => literals item ++ literalsMembers rest

end

theorem wellFormedMembers_iff {members : List (String × Json)} :
    wellFormedMembers members = true ↔ ∀ member ∈ members, member.2.wellFormed = true := by
  induction members with
  | nil => simp [wellFormedMembers]
  | cons member rest ih =>
      obtain ⟨name, item⟩ := member
      simp only [wellFormedMembers, Bool.and_eq_true, ih, List.forall_mem_cons]

example : (decimal "-12.5e1").truncate = -125 := by decide

end Json
