import DocMapper.Error

/-! # Pages

A long list is read page by page. Pages are numbered from one and have a fixed size. -/

namespace DocMapper

/-- The number of items before a page. -/
def itemsBefore (page size : Nat) : Nat := (page - 1) * size

/-- Checks that a page number and a page size are at least one. -/
def checkPage (page size : Int) : Except ArgumentFault Unit :=
  if page < 1 || size < 1 then .error (.pageOutOfRange page size) else .ok ()

/-! ## Pages of queries -/

/-- A stretch of a result. -/
structure Window where
  skip : Nat
  limit : Nat

/-- A count of 64 bits read as a signed number; one of 2^63 or more is negative. -/
def signed (n : Nat) : Int := Int.bmod n (twoTo 64)

/-- The stretch that makes up a page. What is skipped is at most the greatest count of 64 bits. -/
def Window.ofPage (page size : Nat) : Except ArgumentFault Window := do
  checkPage (signed page) (signed size)
  return ⟨min (itemsBefore page size) (twoTo 64 - 1), size⟩

/-! ## Pages of lists

A page of a list is found with integers of 64 bits: its number and its size are signed, positions
and lengths are counts. `none` stands for a computation that leaves the range of the counts, or the
list. -/

namespace Count

/-- The count before another one. -/
def pred? : Nat → Option Nat
  | 0 => none
  | n + 1 => some n

/-- The product of two counts, or the greatest count if that is less. -/
def mulAtMost (m n : Nat) : Nat := min (m * n) (twoTo 64 - 1)

/-- The sum of two counts, if it is a count. -/
def add? (m n : Nat) : Option Nat := if m + n < twoTo 64 then some (m + n) else none

end Count

/-- The items from one position of a list up to another, if the list has both. -/
def slice? (items : List α) (first last : Nat) : Option (List α) :=
  if first ≤ last ∧ last ≤ items.length then some (items.extract first last) else none

/-- The stretch that makes up a page whose number and size are signed. -/
def Window.ofSigned? (page size : Int64) : Option (Except ArgumentFault Window) :=
  match checkPage page.toInt size.toInt with
  | .error fault => some (.error fault)
  | .ok () => do
    let before ← Count.pred? page.toUInt64.toNat
    let limit := size.toUInt64.toNat
    return .ok ⟨Count.mulAtMost before limit, limit⟩

/-- The items on a page of a list. A page that is not full counts as empty. -/
def pageOf? (items : List α) (page size : Int64) : Option (Except ArgumentFault (List α)) := do
  match ← Window.ofSigned? page size with
  | .error fault => return .error fault
  | .ok window =>
    match Count.add? window.skip window.limit with
    | none => return .ok []
    | some stop =>
      if stop ≤ items.length then return .ok (← slice? items window.skip stop) else return .ok []

/-! ## Pages with totals -/

structure Page (α : Type) where
  items : List α
  total : Nat
  size : Nat
  number : Nat

namespace Page

/-- The number of the last page; there is always one. -/
def last (p : Page α) : Nat := if p.total = 0 then 1 else (p.total + p.size - 1) / p.size

def hasMore (p : Page α) : Bool := p.number < p.last

end Page

end DocMapper
