import Litevirt.Firewall.Plan

/-!
# The elements of an address set

An interval set of nftables refuses elements that overlap.  `collapseSetElements` drops every
prefix that another element covers.
-/

namespace Litevirt.Firewall

/-- A decimal numeral without sign and without leading zeros. -/
def numeral (digits : Text) : Option Nat :=
  if digits = [] ∨ digits.all Char.isDigit = false ∨
      (1 < digits.length ∧ digits.head? = some '0') then none
  else some (Nat.ofDigitChars 10 digits 0)

/-- `netip.ParseAddr` on a text without a colon. -/
def parseAddr (value : Text) : Option Nat :=
  match (value.splitOn '.').mapM fun field => (numeral field).filter (· ≤ 255) with
  | some [a, b, c, d] => some (((a * 256 + b) * 256 + c) * 256 + d)
  | _ => none

structure Prefix where
  addr : Nat
  bits : Nat
  deriving DecidableEq

/-- The addresses of a prefix differ below its bits only. -/
def Prefix.block (range : Prefix) (addr : Nat) : Nat := addr / 2 ^ (32 - range.bits)

def Prefix.masked (range : Prefix) : Prefix :=
  { range with addr := range.block range.addr * 2 ^ (32 - range.bits) }

def Prefix.contains (range : Prefix) (addr : Nat) : Bool :=
  range.block addr = range.block range.addr

/-- `netip.ParsePrefix` on a text without a colon. -/
def parsePrefix (value : Text) : Option Prefix :=
  let backward := value.reverse
  if '/' ∈ value then do
    let addr ← parseAddr ((backward.dropWhile (· ≠ '/')).tail).reverse
    let bits ← (numeral (backward.takeWhile (· ≠ '/')).reverse).filter (· ≤ 32)
    return ⟨addr, bits⟩
  else none

/-- What `collapseSetElements` reads an element as. -/
def parseElement (element : Text) : Option Prefix :=
  match parsePrefix element with
  | some range => some range.masked
  | none => (parseAddr element).map fun addr => ⟨addr, 32⟩

/-- The first element makes the second superfluous. -/
def covers (other element : Text) : Bool :=
  match parseElement other, parseElement element with
  | some wide, some narrow =>
    other ≠ element &&
      ((wide.bits < narrow.bits && wide.contains narrow.addr) ||
        (wide = narrow && other < element))
  | _, _ => false

def sortStrings (values : List Text) : List Text := values.insertionSort fun a b => a ≤ b

def uncovered (elements : List Text) : List Text :=
  elements.foldl (fun out element =>
    if element ∈ out then out
    else if elements.any (covers · element) then out
    else out ++ [element]) []

def collapseSetElements (elements : List Text) : List Text := sortStrings (uncovered elements)

end Litevirt.Firewall
