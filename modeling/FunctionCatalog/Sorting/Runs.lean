/-
  FunctionCatalog: sorting by runs.
  A list is cut into ascending runs, descending ones turned around and short ones filled up by
  binary insertion; then runs are merged two by two. A merge that keeps taking from one side leaps
  ahead there. The sort is stable. A comparison may fail or be no order at all; what comes out then
  depends on which elements are compared, and these definitions fix that too.
-/

namespace FunctionCatalog.Sorting

variable {α ε : Type}

/-- The longest front of `x :: xs` in which each element and the next satisfy `step`, and the
rest. -/
def takeRun (step : α → α → Except ε Bool) (x : α) : List α → Except ε (List α × List α)
  | [] => .ok ([x], [])
  | y :: ys => do
    if ← step x y then
      let (run, rest) ← takeRun step y ys
      .ok (x :: run, rest)
    else .ok ([x], y :: ys)

/-- The first run of a list, in ascending order, and the rest. -/
def firstRun (less : α → α → Except ε Bool) : List α → Except ε (List α × List α)
  | [] => .ok ([], [])
  | [x] => .ok ([x], [])
  | x :: y :: ys => do
    if ← less y x then
      let (run, rest) ← takeRun (fun a b => less b a) y ys
      .ok ((x :: run).reverse, rest)
    else
      let (run, rest) ← takeRun (fun a b => do return !(← less b a)) y ys
      .ok (x :: run, rest)

/-- Where binary search puts `x` in a list, behind everything it is not less than. -/
def insertionPoint (less : α → α → Except ε Bool) (x : α) (xs : List α) : Except ε Nat :=
  match h : xs.drop (xs.length / 2) with
  | [] => .ok 0
  | y :: ys => do
    if ← less x y then insertionPoint less x (xs.take (xs.length / 2))
    else
      let i ← insertionPoint less x ys
      .ok (xs.length / 2 + 1 + i)
termination_by xs.length
decreasing_by
  · have := congrArg List.length h
    simp only [List.length_drop, List.length_cons] at this
    simp only [List.length_take]
    omega
  · have := congrArg List.length h
    simp only [List.length_drop, List.length_cons] at this
    omega

/-- Inserts `x` into a sorted list by binary search. -/
def insertSorted (less : α → α → Except ε Bool) (sorted : List α) (x : α) :
    Except ε (List α) := do
  let i ← insertionPoint less x sorted
  .ok (sorted.take i ++ x :: sorted.drop i)

/-- The length to which a short run is filled up in a list of `n` elements: between 32 and 64, so
that the list falls into nearly a power of two of runs; the whole list if it is shorter than
that. -/
def fillLength (n : Nat) : Nat :=
  half n 0
where
  half (n spill : Nat) : Nat :=
    if n < 64 then n + spill else half (n / 2) (max spill (n % 2))
  termination_by n

/-- The next run of a list, filled up to a length, and the rest. -/
def nextRun (less : α → α → Except ε Bool) (fill : Nat) (xs : List α) :
    Except ε (List α × List α) := do
  let (run, rest) ← firstRun less xs
  let short := fill - run.length
  let run ← (rest.take short).foldlM (insertSorted less) run
  .ok (run, rest.drop short)

/-- Leaps: from an index that satisfies `go` to about twice as far, as long as `go` holds. The last
index where it held, and the first one where it did not or the length of the list. -/
def leap (go : α → Except ε Bool) (xs : List α) (last next : Nat) : Except ε (Nat × Nat) :=
  match h : xs[next]? with
  | none => .ok (last, xs.length)
  | some x => do
    if ← go x then leap go xs next (2 * next + 1) else .ok (last, next)
termination_by xs.length - next
decreasing_by
  have := (List.getElem?_eq_some_iff.1 h).1
  omega

/-- The index at which a range of `width` is halved: the later one of two middles, or the earlier
one when the list is seen from its back. -/
def half (back : Bool) (width : Nat) : Nat :=
  if back then width - 1 - width / 2 else width / 2

theorem half_lt (back : Bool) {width : Nat} (h : 0 < width) : half back width < width := by
  unfold half
  split <;> omega

/-- Binary search for the first index from `low` to `high` where `go` does not hold. -/
def bisect (back : Bool) (go : α → Except ε Bool) (xs : List α) (low high : Nat) : Except ε Nat :=
  if _h : low < high then
    match xs[low + half back (high - low)]? with
    | none => .ok low
    | some x => do
      if ← go x then bisect back go xs (low + half back (high - low) + 1) high
      else bisect back go xs low (low + half back (high - low))
  else .ok low
termination_by high - low
decreasing_by
  · omega
  · have := half_lt back (Nat.sub_pos_of_lt _h)
    omega

/-- How many elements at the front of a list satisfy `go`, found by leaps and then by bisection. -/
def gallop (back : Bool) (go : α → Except ε Bool) (xs : List α) : Except ε Nat :=
  match xs with
  | [] => .ok 0
  | x :: _ => do
    if ← go x then
      let (last, next) ← leap go xs 0 1
      bisect back go xs (last + 1) next
    else .ok 0

/-- A merge on the way: what has come out, last first, and what is left on either side. -/
structure Merge (α : Type) where
  out : List α
  left : List α
  right : List α

namespace Merge

/-- Everything, when one side is used up. -/
def all (m : Merge α) : List α :=
  m.out.reverse ++ m.left ++ m.right

/-- Everything, when a single element on the left comes after all on the right. -/
def rightFirst (m : Merge α) : List α :=
  m.out.reverse ++ m.right ++ m.left

/-- Either the end of a merge or where it stands. -/
inductive Progress (α : Type) where
  | done (xs : List α)
  | more (m : Merge α) (leapt : Nat)

/-- Leaps ahead on the left and then takes one element from the right. -/
def leapLeft (back : Bool) (wins : α → α → Except ε Bool) (m : Merge α) :
    Except ε (Progress α) :=
  match m.right with
  | [] => .ok (.done m.all)
  | r :: right => do
    let k ← gallop back (fun x => do return !(← wins r x)) m.left
    let m := { m with out := (m.left.take k).reverse ++ m.out, left := m.left.drop k }
    match m.left, right with
    | [], _ => .ok (.done m.all)
    | [_], _ => .ok (.done m.rightFirst)
    | _, [] => .ok (.done { m with out := r :: m.out, right }.all)
    | _, _ => .ok (.more { m with out := r :: m.out, right } k)

/-- Leaps ahead on the right and then takes one element from the left. -/
def leapRight (back : Bool) (wins : α → α → Except ε Bool) (m : Merge α) :
    Except ε (Progress α) :=
  match m.left with
  | [] => .ok (.done m.all)
  | l :: left => do
    let k ← gallop back (fun x => wins x l) m.right
    let m := { m with out := (m.right.take k).reverse ++ m.out, right := m.right.drop k }
    match left, m.right with
    | _, [] => .ok (.done m.all)
    | [_], _ => .ok (.done { m with out := l :: m.out, left }.rightFirst)
    | _, _ => .ok (.more { m with out := l :: m.out, left } k)

/-- Leaps ahead on both sides, the one that is seen from its back starting on the right. -/
def leapBoth (back : Bool) (wins : α → α → Except ε Bool) (m : Merge α) :
    Except ε (Progress α × Nat) := do
  let (one, two) :=
    if back then (leapRight back wins, leapLeft back wins)
    else (leapLeft back wins, leapRight back wins)
  match ← one m with
  | .done xs => .ok (.done xs, 0)
  | .more m k => do
    match ← two m with
    | .done xs => .ok (.done xs, 0)
    | .more m j => .ok (.more m k, j)

/-- A leap of at least this length is worth another try. -/
def longLeap : Nat := 7

mutual

/-- Takes one element after the other: from the right if its first one wins over the first one on
the left. After `limit` elements in a row from one side it goes on by leaps. The budget bounds the
number of steps. -/
def step (back : Bool) (wins : α → α → Except ε Bool) :
    Nat → Merge α → Nat → Nat × Nat → Except ε (List α × Nat)
  | 0, m, limit, _ => .ok (m.all, limit)
  | budget + 1, m, limit, (lefts, rights) =>
    match m.left, m.right with
    | l :: left, r :: right => do
      if ← wins r l then
        let m := { m with out := r :: m.out, right }
        if right.isEmpty then .ok (m.all, limit)
        else if limit ≤ rights + 1 then leaps back wins budget m (limit + 1)
        else step back wins budget m limit (0, rights + 1)
      else
        let m := { m with out := l :: m.out, left }
        if left.length = 1 then .ok (m.rightFirst, limit)
        else if limit ≤ lefts + 1 then leaps back wins budget m (limit + 1)
        else step back wins budget m limit (lefts + 1, 0)
    | _, _ => .ok (m.all, limit)

/-- Goes on by leaps as long as one of them is long. Each round makes leaping easier to start the
next time, and stopping makes it harder. -/
def leaps (back : Bool) (wins : α → α → Except ε Bool) :
    Nat → Merge α → Nat → Except ε (List α × Nat)
  | 0, m, limit => .ok (m.all, limit)
  | budget + 1, m, limit => do
    let limit := if 1 < limit then limit - 1 else limit
    match ← leapBoth back wins m with
    | (.done xs, _) => .ok (xs, limit)
    | (.more m k, j) =>
      if longLeap ≤ k || longLeap ≤ j then leaps back wins budget m limit
      else step back wins budget m (limit + 1) (0, 0)

end

/-- Merges two lists of which the first element on the right is known to come first. -/
def start (back : Bool) (wins : α → α → Except ε Bool) (left right : List α) (limit : Nat) :
    Except ε (List α × Nat) :=
  match right with
  | [] => .ok (left, limit)
  | r :: right =>
    let m : Merge α := ⟨[r], left, right⟩
    if right.isEmpty then .ok (m.all, limit)
    else if left.length = 1 then .ok (m.rightFirst, limit)
    else step back wins (2 * (left.length + right.length)) m limit (0, 0)

end Merge

/-- Merges two adjacent runs. What is in place already at either end stays out of it; the rest is
merged from the front, or from the back when the second run is the shorter one. -/
def mergeRuns (less : α → α → Except ε Bool) (limit : Nat) (xs ys : List α) :
    Except ε (List α × Nat) :=
  match ys with
  | [] => .ok (xs, limit)
  | y :: _ => do
    let k ← gallop false (fun x => do return !(← less y x)) xs
    match (xs.drop k).getLast? with
    | none => .ok (xs ++ ys, limit)
    | some last => do
      let tail ← gallop true (fun x => do return !(← less x last)) ys.reverse
      let left := xs.drop k
      let right := ys.take (ys.length - tail)
      let (merged, limit) ←
        if right.isEmpty then .ok (left, limit)
        else if left.length ≤ right.length then Merge.start false less left right limit
        else do
          let (merged, limit) ←
            Merge.start true (fun r l => less l r) right.reverse left.reverse limit
          .ok (merged.reverse, limit)
      .ok (xs.take k ++ merged ++ ys.drop (ys.length - tail), limit)

/-- A run that waits for its merge, and the power of the boundary behind it. -/
structure Pending (α : Type) where
  run : List α
  power : Nat

/-- The power of the boundary between two adjacent runs in a list of `n` elements: how many halvings
of the list it takes until their middles, given as twice their indices, fall apart. The budget
bounds the number of halvings. -/
def boundaryPower (n : Nat) : Nat → Nat → Nat → Nat
  | 0, _, _ => 1
  | budget + 1, a, b =>
    if n ≤ a then boundaryPower n budget (2 * (a - n)) (2 * (b - n)) + 1
    else if n ≤ b then 1
    else boundaryPower n budget (2 * a) (2 * b) + 1

/-- Merges the last two runs, the last one first in the list, while the boundary before them has a
greater power than the new one. -/
def collapse (less : α → α → Except ε Bool) (power : Nat) :
    List (Pending α) → Nat → Except ε (List (Pending α) × Nat)
  | last :: before :: rest, limit => do
    if power < before.power then
      let (run, limit) ← mergeRuns less limit before.run last.run
      collapse less power (⟨run, before.power⟩ :: rest) limit
    else .ok (last :: before :: rest, limit)
  | stack, limit => .ok (stack, limit)
termination_by stack => stack.length

/-- Adds a run behind the pending ones. -/
def push (less : α → α → Except ε Bool) (n : Nat) (run : List α) (stack : List (Pending α))
    (limit : Nat) : Except ε (List (Pending α) × Nat) := do
  match stack with
  | [] => .ok ([⟨run, 0⟩], limit)
  | last :: rest =>
    let start := rest.foldl (fun n r => n + r.run.length) 0
    let a := 2 * start + last.run.length
    let power := boundaryPower n (n + 64) a (a + last.run.length + run.length)
    let (stack, limit) ← collapse less power (last :: rest) limit
    match stack with
    | [] => .ok ([⟨run, 0⟩], limit)
    | last :: rest => .ok (⟨run, 0⟩ :: { last with power } :: rest, limit)

/-- Merges what is pending, the shorter neighbour of the run before the last one first. The budget
bounds the number of merges. -/
def finish (less : α → α → Except ε Bool) :
    Nat → List (Pending α) → Nat → Except ε (List α)
  | _, [], _ => .ok []
  | _, [one], _ => .ok one.run
  | 0, stack, _ => .ok (stack.reverse.flatMap (·.run))
  | budget + 1, last :: before :: earlier :: rest, limit => do
    if earlier.run.length < last.run.length then
      let (run, limit) ← mergeRuns less limit earlier.run before.run
      finish less budget (last :: { earlier with run } :: rest) limit
    else
      let (run, limit) ← mergeRuns less limit before.run last.run
      finish less budget ({ before with run } :: earlier :: rest) limit
  | _ + 1, [last, before], limit => do
    let (run, _) ← mergeRuns less limit before.run last.run
    .ok run

/-- Cuts a list into runs and pushes them. The budget bounds the number of runs. -/
def pushAll (less : α → α → Except ε Bool) (n : Nat) :
    Nat → List α → List (Pending α) → Nat → Except ε (List (Pending α) × Nat)
  | _, [], stack, limit => .ok (stack, limit)
  | 0, _, stack, limit => .ok (stack, limit)
  | budget + 1, xs, stack, limit => do
    let (run, rest) ← nextRun less (fillLength n) xs
    let (stack, limit) ← push less n run stack limit
    pushAll less n budget rest stack limit

/-- Sorts by `less`, which may fail. -/
def sortM (less : α → α → Except ε Bool) (xs : List α) : Except ε (List α) :=
  if xs.length < 2 then .ok xs
  else do
    let (stack, limit) ← pushAll less xs.length xs.length xs [] Merge.longLeap
    finish less stack.length stack limit

/-- Sorts by `less`. -/
def sortBy (less : α → α → Bool) (xs : List α) : List α :=
  match sortM (fun a b => (.ok (less a b) : Except Empty Bool)) xs with
  | .ok sorted => sorted

end FunctionCatalog.Sorting
