import FeeWindow.Pattern

/-!
The reduced form of a pattern, from which its automaton is built: plain groups are gone, sequences
and choices are flat, neighbouring characters are joined to texts, a choice of characters is a set,
and items that all branches of a choice begin with stand before it once.
-/

namespace FeeWindow.Pattern

/-- The sum of sizes. -/
def total (sizes : List Nat) : Nat := sizes.foldr (· + ·) 0

/-- A pattern in reduced form. The right side of a sequence or a choice goes on with it, the left
side is neither empty nor of the same kind, and a set of one character is a text. -/
inductive Reduced where
  | nothing
  | text (s : List Char)
  | oneOf (ranges : List (Nat × Nat))
  | assertion (a : Assertion)
  | repeated (p : Reduced) (least : Nat) (most : Option Nat) (eager : Bool)
  | capture (p : Reduced)
  | seq (p q : Reduced)
  | alt (p q : Reduced)

namespace Reduced

/-- Whether two patterns are the same. Two captures never are: each is a group of its own. -/
def same : Reduced → Reduced → Bool
  | .nothing, .nothing => true
  | .text s, .text t => s == t
  | .oneOf r, .oneOf t => r == t
  | .assertion a, .assertion b => a == b
  | .repeated p least most eager, .repeated q least' most' eager' =>
      same p q && least == least' && most == most' && eager == eager'
  | .seq p q, .seq p' q' => same p p' && same q q'
  | .alt p q, .alt p' q' => same p p' && same q q'
  | _, _ => false

def size : Reduced → Nat
  | .repeated p _ _ _ | .capture p => p.size + 1
  | .seq p q | .alt p q => p.size + q.size + 1
  | _ => 1

/-- Whether a pattern matches nothing but the empty text. -/
def neverConsumes : Reduced → Bool
  | .nothing | .assertion _ => true
  | .text _ | .oneOf _ => false
  | .repeated p _ most _ => most.isSome && p.neverConsumes
  | .capture p => p.neverConsumes
  | .seq p q | .alt p q => p.neverConsumes && q.neverConsumes

/-- The least number of characters of a match. A set without characters leaves it open. -/
def leastLength? : Reduced → Option Nat
  | .nothing | .assertion _ => some 0
  | .text s => some s.length
  | .oneOf ranges => if ranges.isEmpty then none else some 1
  | .repeated p least _ _ => p.leastLength?.map (· * least)
  | .capture p => p.leastLength?
  | .seq p q => do return (← p.leastLength?) + (← q.leastLength?)
  | .alt p q => do return min (← p.leastLength?) (← q.leastLength?)

def beginsWith (a : Assertion) : Reduced → Bool
  | .assertion b => a == b
  | .repeated p least _ _ => least != 0 && p.beginsWith a
  | .capture p => p.beginsWith a
  | .seq p q => p.beginsWith a || p.neverConsumes && q.beginsWith a
  | .alt p q => p.beginsWith a && q.beginsWith a
  | _ => false

def endsWith (a : Assertion) : Reduced → Bool
  | .assertion b => a == b
  | .repeated p least _ _ => least != 0 && p.endsWith a
  | .capture p => p.endsWith a
  | .seq p q => q.endsWith a || q.neverConsumes && p.endsWith a
  | .alt p q => p.endsWith a && q.endsWith a
  | _ => false

/-- The items of a sequence; another pattern is its only item. -/
def items : Reduced → List Reduced
  | .nothing => []
  | .seq p q => p :: q.items
  | p => [p]

/-- The branches of a choice; another pattern is its only branch. -/
def branches : Reduced → List Reduced
  | .alt p q => p :: q.branches
  | p => [p]

def ofItems : List Reduced → Reduced
  | [] => .nothing
  | [p] => p
  | p :: ps => .seq p (ofItems ps)

def ofBranches : List Reduced → Reduced
  | [] => .oneOf []
  | [p] => p
  | p :: ps => .alt p (ofBranches ps)

def joinTexts : List Reduced → List Reduced
  | [] => []
  | p :: ps =>
      match p, joinTexts ps with
      | .text s, .text t :: rest => .text (s ++ t) :: rest
      | p, rest => p :: rest

def concat (ps : List Reduced) : Reduced := ofItems (joinTexts (ps.flatMap items))

def ofRanges (ranges : List (Nat × Nat)) : Reduced :=
  match ranges with
  | [(low, high)] => if low = high then .text [Char.ofNat low] else .oneOf ranges
  | _ => .oneOf ranges

/-- A repetition. What consumes nothing need not be repeated more than once. -/
def times (p : Reduced) (least : Nat) (most : Option Nat) (eager : Bool) : Reduced :=
  let (least, most) :=
    if p.neverConsumes then (min least 1, some (min (most.getD 1) 1)) else (least, most)
  match least, most with
  | 0, some 0 => .nothing
  | 1, some 1 => p
  | _, _ => .repeated p least most eager

/-- The ranges of a text of one character. -/
def charRanges? : Reduced → Option (List (Nat × Nat))
  | .text [c] => some [(c.toNat, c.toNat)]
  | _ => none

/-- The ranges of a set. -/
def setRanges? : Reduced → Option (List (Nat × Nat))
  | .oneOf ranges => some ranges
  | _ => none

/-- The set that a choice comes to if all its branches are characters, or all are sets. -/
def unionSet? (ps : List Reduced) : Option Reduced :=
  ((ps.mapM charRanges?).or (ps.mapM setRanges?)).map fun ranges =>
    ofRanges (Text.sortedRanges ranges.flatten)

/-- How many items two sequences have in common at the front. -/
def commonLength : List Reduced → List Reduced → Nat
  | p :: ps, q :: qs => if same p q then commonLength ps qs + 1 else 0
  | _, _ => 0

/-- How many items all branches have in common at the front. Only sequences have any. -/
def sharedLength : List Reduced → Nat
  | [] => 0
  | p :: ps =>
      if (p :: ps).all (2 ≤ ·.items.length) then
        ps.foldl (fun n q => min n (commonLength p.items q.items)) p.items.length
      else 0

/-- The choice between patterns. Where all branches begin alike, what they begin with is followed
by the choice between the rests; each such step costs one of `fuel`. -/
def choice (fuel : Nat) (ps : List Reduced) : Reduced :=
  match ps.flatMap branches with
  | [] => .oneOf []
  | [p] => p
  | p :: ps =>
      match unionSet? (p :: ps) with
      | some set => set
      | none =>
          match fuel, sharedLength (p :: ps) with
          | _, 0 | 0, _ => ofBranches (p :: ps)
          | fuel + 1, n =>
              let rests := (p :: ps).map fun q => concat (q.items.drop n)
              concat (p.items.take n ++ [choice fuel rests])

end Reduced

/-- A pattern on the way to its reduced form: the items of a sequence, or the branches of a choice
that may go on. -/
inductive Reduction where
  | items (ps : List Reduced)
  | branches (ps : List Reduced)

namespace Reduction

def settle : Reduction → Reduced
  | .items ps => .concat ps
  | .branches ps => .choice (total (ps.map Reduced.size)) ps

def toItems : Reduction → List Reduced
  | .items ps => ps
  | r => r.settle.items

def toBranches : Reduction → List Reduced
  | .branches ps => ps
  | r => [r.settle]

end Reduction

def reduction : Pattern → Reduction
  | .empty => .items []
  | .one set => .items [.ofRanges set.ranges]
  | .assertion a => .items [.assertion a]
  | .group .plain p => .items p.reduction.settle.items
  | .group _ p => .items [.capture p.reduction.settle]
  | .repeated p least most eager => .items (p.reduction.settle.times least most eager).items
  | .seq p q => .items (p.reduction.toItems ++ q.reduction.toItems)
  | .alt p q => .branches (p.reduction.toBranches ++ q.reduction.toBranches)

def reduce (p : Pattern) : Reduced := p.reduction.settle

end FeeWindow.Pattern
