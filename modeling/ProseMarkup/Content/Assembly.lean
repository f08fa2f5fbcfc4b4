import ProseMarkup.Content.Place

/-!
# Assembly of content from pending jobs

Content nested to any depth is resolved without recursion. The lists of content under construction
are numbered; a *job* is a run of fragments whose resolution is to be added at the end of one of them.
Doing a job adds items to its list up to the first span found, begins a list for each link and for
the span, and leaves jobs for those lists and for what follows the span. The first fault that a job
meets is kept.

* `Assembly.unfold` : the items that a job adds, and the fragments it leaves for later.
* `Assembly.perform` : the effect of one job.
* `Assembly.stepAt`, `Assembly.run` : doing the job at a place of the list of pending jobs, and doing
  the foremost one again and again.
* `Assembly.contents` : the content built, with every numbered list put in its place.
* `Assembly.build`, `Assembly.resolve` : the assembly with all jobs done, and the resolution of fragments.
-/

namespace ProseMarkup

/-- An item added by a job. -/
inductive Finding where
  /-- An item that is finished. -/
  | whole (item : Content)
  /-- A span, with the fragments it encloses. -/
  | span (opening : Text) (fragments : List Content)
  /-- A link, with its fragments. -/
  | link (url : Value) (fragments : Fragments)

/-- An item of a list under construction. -/
inductive Piece where
  /-- An item that is finished. -/
  | whole (item : Content)
  /-- A span whose contents are the list of a number. -/
  | span (opening : Text) (list : Nat)
  /-- A link whose contents are the list of a number. -/
  | link (url : Value) (list : Nat)

/-- Fragments whose resolution is to be added to a list. -/
structure Job where
  /-- The number of the list. -/
  target : Nat
  fragments : Fragments
  /-- The level of nesting of the list. -/
  depth : Nat

/-- Lists under construction, and what is left to do. -/
structure Assembly where
  /-- The lists by number. -/
  lists : List (List Piece)
  /-- The jobs left, foremost first. -/
  pending : List Job
  /-- Whether the limit of nesting has been met. -/
  cut : Bool
  /-- The first fault met. -/
  fault : Option Fault

namespace Assembly

/-- Nothing built yet, and all fragments to be added to the first list. -/
def start (fragments : Fragments) : Assembly where
  lists := [[]]
  pending := [⟨0, fragments, 0⟩]
  cut := false
  fault := none

/-- The items that fragments yield up to and including the first span, and the fragments after it. -/
def unfold (rules : RuleIndex) : List Content → List Finding × List Content
  | [] => ([], [])
  | .text s :: later =>
    match Span.find? rules s later with
    | none =>
      let (found, rest) := unfold rules later
      (.whole (.text s) :: found, rest)
    | some span =>
      ((Resolution.before span s).map .whole ++
          [.span span.opening (span.contents (.text s :: later))],
        span.rest (.text s :: later))
  | .link url contents :: later =>
    let (found, rest) := unfold rules later
    (.link url (.row contents) :: found, rest)
  | .foreign (.link url contents) :: later =>
    let (found, rest) := unfold rules later
    (.link url (.ofValue contents) :: found, rest)
  | c :: later =>
    let (found, rest) := unfold rules later
    (.whole c :: found, rest)

/-- The fault of an item found: a span that has an unusable opening delimiter. -/
def findingFault? (rules : RuleIndex) : Finding → Option Fault
  | .span opening _ => if rules.isUnusable opening then some .notText else none
  | _ => none

/-- Pieces more at the end of a list. -/
def append (a : Assembly) (list : Nat) (pieces : List Piece) : Assembly :=
  { a with lists := a.lists.modify list (· ++ pieces) }

/-- A fault met, if none has been met before. -/
def fail (a : Assembly) (fault : Option Fault) : Assembly :=
  { a with fault := a.fault.or fault }

/-- A new list, with the job to fill it. -/
def beginList (a : Assembly) (fragments : Fragments) (depth : Nat) : Assembly :=
  { a with
    lists := a.lists ++ [[]]
    pending := ⟨a.lists.length, fragments, depth⟩ :: a.pending }

/-- An item found by a job for the list `target` at level `depth`: it goes to the end of that list,
and if it is not finished its contents become a new list at the next level. -/
def place (target depth : Nat) (a : Assembly) : Finding → Assembly
  | .whole c => a.append target [.whole c]
  | .span opening fragments =>
    (a.append target [.span opening a.lists.length]).beginList (.row fragments) (depth + 1)
  | .link url fragments =>
    (a.append target [.link url a.lists.length]).beginList fragments (depth + 1)

/-- The effect of a job at the limit of nesting: its fragments are kept without resolution. -/
def keep (a : Assembly) (job : Job) : Assembly :=
  match job.fragments.literal with
  | .ok items => { a.append job.target (items.map .whole) with cut := true }
  | .error fault => a.fail (some fault)

/-- The effect of a job above the limit for a row of fragments. -/
def performRow (rules : RuleIndex) (a : Assembly) (target depth : Nat) (items : List Content) :
    Assembly :=
  let (found, rest) := unfold rules items
  let placed := found.foldl (place target depth) (a.fail (found.findSome? (findingFault? rules)))
  if rest.isEmpty then placed
  else { placed with pending := ⟨target, .row rest, depth⟩ :: placed.pending }

/-- The effect of a job that has been taken from the pending ones. -/
def perform (rules : RuleIndex) (limit : Int) (a : Assembly) (job : Job) : Assembly :=
  if limit ≤ job.depth then a.keep job
  else match job.fragments with
    | .row items => performRow rules a job.target job.depth items
    | .keyed entries =>
      (a.append job.target (entries.map fun e => .whole (.foreign e.1))).fail
        (Span.keyedFault? rules entries)
    | .unlisted => a.fail (some .notIterable)

/-- Does the pending job at a place; `none` if there is none. -/
def stepAt (rules : RuleIndex) (limit : Int) (i : Nat) (a : Assembly) : Option Assembly :=
  a.pending[i]?.map fun job =>
    perform rules limit { a with pending := a.pending.eraseIdx i } job

/-- Does the foremost pending job, again and again, at most `steps` times. -/
def run (rules : RuleIndex) (limit : Int) : (steps : Nat) → Assembly → Assembly
  | 0, a => a
  | steps + 1, a =>
    match a.stepAt rules limit 0 with
    | none => a
    | some b => run rules limit steps b

/-! ### Reading the result -/

/-- A piece as content, given the finished lists with numbers from `first` on. -/
def finishPiece (first : Nat) (finished : List (List Content)) : Piece → Content
  | .whole c => c
  | .span opening list => .span opening (finished.getD (list - first) [])
  | .link url list => .link url (finished.getD (list - first) [])

/-- Finished lists: the pieces of a list refer to later lists only, so the last is finished first. -/
def finish : (number : Nat) → List (List Piece) → List (List Content)
  | _, [] => []
  | number, pieces :: later =>
    let finished := finish (number + 1) later
    pieces.map (finishPiece (number + 1) finished) :: finished

/-- The content of the first list. -/
def contents (a : Assembly) : List Content :=
  (finish 0 a.lists).headD []

/-- A number of steps within which all jobs get done: every link and every pair of delimiters brings
at most two more jobs, and a pair of delimiters uses up a character. -/
def stepBound : Fragments → Nat
  | .row items => 1 + Content.linkCounts items + 2 * Content.charCounts items
  | _ => 1

/-- The assembly of fragments with all jobs done. -/
def build (rules : RuleIndex) (limit : Int) (fragments : Fragments) : Assembly :=
  (start fragments).run rules limit (stepBound fragments)

/-- The resolution of fragments, down to a limit of nesting, or the first fault met on the way. -/
def resolve (rules : RuleIndex) (limit : Int) (fragments : Fragments) : Except Fault Resolution :=
  let done := build rules limit fragments
  match done.fault with
  | some fault => .error fault
  | none => .ok ⟨done.contents, done.cut⟩

end Assembly

end ProseMarkup
