import PagedCache.Snapshot

/-!
# Windows of machine words

Reading and merging once more as a machine does them: positions are words of 64 bits, whose sums
wrap around, and a part of a list is taken only from bounds that are in range.
-/

namespace PagedCache

/-- A part of a list was asked for that the list does not have. -/
structure RangeFault where
  start : UInt64
  stop : UInt64
  length : Nat
  deriving DecidableEq, Repr

/-- A window of two words. -/
structure WordWindow where
  offset : UInt64
  limit : UInt64
  deriving DecidableEq, Repr

namespace WordWindow

/-- The last word. -/
def maxWord : UInt64 := 0 - 1

/-- The sum, or the last word if the sum wraps around. -/
def saturatingAdd (left right : UInt64) : UInt64 :=
  if left + right < left then maxWord else left + right

/-- The sum, unless it wraps around. -/
def checkedAdd? (left right : UInt64) : Option UInt64 :=
  if left + right < left then none else some (left + right)

/-- The length of a list as a word. -/
def lengthOf {β : Type} (items : List β) : UInt64 :=
  UInt64.ofNat items.length

/-- The part of a list between two bounds. -/
def range {β : Type} (items : List β) (start stop : UInt64) : Except RangeFault (List β) :=
  if start ≤ stop ∧ stop.toNat ≤ items.length then
    .ok ((items.drop start.toNat).take (stop.toNat - start.toNat))
  else .error ⟨start, stop, items.length⟩

def stop (window : WordWindow) : UInt64 :=
  saturatingAdd window.offset window.limit

variable {α : Type}

def missingTail (snapshot : Snapshot α) (window : WordWindow) : Bool :=
  let length := lengthOf snapshot.items
  if window.limit = 0 ∨ window.stop ≤ length then false
  else
    match snapshot.total with
    | some total => decide (length < min window.stop (UInt64.ofNat total))
    | none => true

def read (existing : Option (Snapshot α)) (window : WordWindow) :
    Except RangeFault (Option (Snapshot α)) :=
  match existing with
  | none => .ok none
  | some snapshot => do
    let length := lengthOf snapshot.items
    let items ← range snapshot.items (min window.offset length) (min window.stop length)
    return some { snapshot with items := items }

/-- The items with holes behind them up to `stop`. -/
def grow (items : List (Option α)) (stop : UInt64) : List (Option α) :=
  if lengthOf items < stop then
    items ++ List.replicate (stop.toNat - items.length) none
  else items

/-- Put values into slots, one after the other, until there is no further value or slot. -/
def fill {β : Type} : List β → List β → List β
  | _ :: slots, value :: values => value :: fill slots values
  | slots, _ => slots

/-- Put values into the part of a list between two bounds. -/
def fillRange {β : Type} (items : List β) (start stop : UInt64) (values : List β) :
    Except RangeFault (List β) := do
  let slots ← range items start stop
  return items.take start.toNat ++ fill slots values ++ items.drop stop.toNat

/-- The items under a page that ends at `stop`, if there is anything in the page. -/
def cover (items : List (Option α)) (offset stop : UInt64) (page : List α) :
    Except RangeFault (List (Option α)) :=
  if 0 < lengthOf page then fillRange (grow items stop) offset stop (page.map some)
  else .ok items

def mergeItems (items : List (Option α)) (page : List α) (window : WordWindow) :
    Except RangeFault (List (Option α)) :=
  let written := lengthOf page
  match checkedAdd? window.offset written with
  | none => .ok items
  | some stop => do
    let covered ← cover items window.offset stop page
    return if written < window.limit then covered.take stop.toNat else covered

def merge (existing : Option (Snapshot α)) (incoming : Option (Page α)) (window : WordWindow) :
    Except RangeFault (Option (Snapshot α)) :=
  match incoming with
  | none => .ok existing
  | some page => do
    let base := existing.getD Snapshot.empty
    let items ←
      match page.items with
      | none => .ok base.items
      | some pageItems => mergeItems base.items pageItems window
    return some ⟨items, page.total.or base.total, page.passthrough⟩

end WordWindow

end PagedCache
