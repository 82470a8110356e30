import StepScript.Run.Event
import StepScript.Scope.Basic

/-!
# Task — work that may wait

A run has a state: its scope, a virtual clock, and the events reported so far.  A task takes a state
and makes progress: it finishes with a result, it waits until the clock has reached some time, or
the run is halted.  Waiting work goes on with whatever state it finds then, which is how several
tasks can share one scope.

* `Progress.bind` sequences work, `Task` is a monad;
* `Progress.beside` runs two tasks side by side, in one of two manners: the first failure ends both,
  or a failure only counts when all that was started before has finished;
* `Progress.complete` lets the clock run until nothing waits any more.
-/

namespace StepScript

/-- The state of a run. -/
structure RunState where
  scope : Scope
  /-- Milliseconds of virtual time. -/
  clock : Nat
  /-- The number of times something has begun to wait. -/
  timers : Nat
  /-- The events reported so far, the last one first. -/
  log : List Event
  /-- The number of times that waiting work was dropped since work beside it had failed. -/
  dropped : Nat

namespace RunState

def start (scope : Scope) : RunState := ⟨scope, 0, 0, [], 0⟩

def events (s : RunState) : List Event := s.log.reverse

def drop (s : RunState) : RunState := { s with dropped := s.dropped + 1 }

end RunState

/-- Why a run came to no end. -/
inductive Halt where
  /-- More work was nested in each other than was allowed. -/
  | exhausted
  /-- There is no answer at all. -/
  | crashed
  deriving DecidableEq

/-- How far a task has come. -/
inductive Progress (α : Type) where
  | finished (result : α) (state : RunState)
  /-- Wait until the clock shows `due`.  Of two that wait for the same time the one with the lower
  `order` began to wait first. -/
  | waiting (due order : Nat) (state : RunState) (resume : RunState → Progress α)
  | halted (why : Halt)

namespace Progress

variable {α β ε : Type}

def bind : Progress α → (α → RunState → Progress β) → Progress β
  | .finished a s, next => next a s
  | .waiting due order s resume, next => .waiting due order s fun s => (resume s).bind next
  | .halted why, _ => .halted why

def map (f : α → β) (p : Progress α) : Progress β :=
  p.bind fun a s => .finished (f a) s

/-- Go on from where a part of the work has come, unless it has failed, which `leave`s a state. -/
def unlessFailed (leave : RunState → RunState) (p : Progress (Except ε α))
    (next : RunState → Progress (Except ε β)) : Progress (Except ε β) :=
  match p with
  | .finished (.error e) s => .finished (.error e) (leave s)
  | .finished (.ok _) s => next s
  | .waiting _ _ s _ => next s
  | .halted why => .halted why

/-! ## Side by side -/

/-- How two parts move side by side while both of them wait, the left one until `due` and the right
one until `due'`. -/
structure Manner where
  /-- Whether the left part is the next one that is due. -/
  leftFirst : (due order due' order' : Nat) → Bool
  /-- Whether the left part moves when the clock allows for one of them. -/
  leftMoves : (due order due' order' clock : Nat) → Bool
  /-- Whether the right part moves right after the left one. -/
  rightFollows : (due' clock : Nat) → Bool
  /-- Whether a failure of the right part ends the left part too. -/
  failsAtOnce : Bool

namespace Manner

/-- Whenever the clock allows it the left part moves first, then the right one; the first failure
ends both. -/
def eager : Manner where
  leftFirst due _ due' _ := due ≤ due'
  leftMoves due _ _ _ clock := due ≤ clock
  rightFollows due' clock := due' ≤ clock
  failsAtOnce := true

def isEarlier (due order due' order' : Nat) : Bool :=
  due < due' || (due == due' && order < order')

/-- Whichever began to wait first for the earliest time moves; a failure of the right part waits for
the left part. -/
def ordered : Manner where
  leftFirst := isEarlier
  leftMoves due order due' order' _ := isEarlier due order due' order'
  rightFollows _ _ := false
  failsAtOnce := false

end Manner

def pairWith (a : α) : Except ε β → Except ε (α × β)
  | .ok b => .ok (a, b)
  | .error e => .error e

def pairResults : Except ε α → Except ε β → Except ε (α × β)
  | .error e, _ => .error e
  | .ok a, result => pairWith a result

/-- The left part waits on with a result of the right part, unless that ends both. -/
def waitOn (manner : Manner) (due order : Nat) (resume : RunState → Progress (Except ε α))
    (result : Except ε β) (s : RunState) : Progress (Except ε (α × β)) :=
  match manner.failsAtOnce, result with
  | true, .error e => .finished (.error e) s.drop
  | _, result => (Progress.waiting due order s resume).map fun a => pairResults a result

/-- The right part moves while the left part waits until `due`.  `moveLeft` lets the left part move
and takes what the right part does after it; `leftAlone` lets it go on without the right part. -/
def besideWaiting (manner : Manner) (due order : Nat)
    (moveLeft : RunState → (RunState → Progress (Except ε β)) → Progress (Except ε (α × β)))
    (leftAlone : Except ε β → RunState → Progress (Except ε (α × β))) :
    Progress (Except ε β) → Progress (Except ε (α × β))
  | .halted why => .halted why
  | .finished result s => leftAlone result s
  | .waiting due' order' s resume =>
    let first := if manner.leftFirst due order due' order' then order else order'
    .waiting (min due due') first s fun now =>
      if manner.leftMoves due order due' order' now.clock then
        moveLeft now fun s =>
          if manner.rightFollows due' now.clock then resume s else .waiting due' order' s resume
      else besideWaiting manner due order moveLeft leftAlone (resume now)

/-- Two parts side by side, begun one after the other.  A failure of the left part ends both.  The
state reached so far is that of the right part. -/
def beside (manner : Manner) : Progress (Except ε α) → Progress (Except ε β) →
    Progress (Except ε (α × β))
  | .halted why, _ => .halted why
  | .finished (.error e) s, _ => .finished (.error e) s
  | .finished (.ok a) _, right => right.map (pairWith a)
  | .waiting due order _ resume, right =>
    -- recursion is on the left part here and on the right part in `besideWaiting`
    besideWaiting manner due order
      (fun now right =>
        let left := resume now
        left.unlessFailed RunState.drop fun s => left.beside manner (right s))
      (waitOn manner due order resume)
      right

/-- Move on as long as something is due. -/
def settle : Progress α → Progress α
  | .halted why => .halted why
  | .finished a s => .finished a s
  | .waiting due order s resume =>
    if due ≤ s.clock then (resume s).settle
    else .waiting due order s fun now => (resume now).settle

/-- Work that had a scope of its own instead of the `outer` one: whenever it waits or ends, the run has
the outer scope again, and its own one is kept for it. -/
def apart (outer : Scope) : Progress α → Progress (α × Scope)
  | .finished a s => .finished (a, s.scope) { s with scope := outer }
  | .waiting due order s resume =>
    .waiting due order { s with scope := outer } fun now =>
      (resume { now with scope := s.scope }).apart now.scope
  | .halted why => .halted why

/-! ## Running to the end -/

/-- Let the clock run until nothing waits any more. -/
def complete : Progress α → Except Halt (α × RunState)
  | .finished a s => .ok (a, s)
  | .waiting due _ s resume => (resume { s with clock := max s.clock due }).complete
  | .halted why => .error why

/-! ## Sequencing -/

@[simp] theorem bind_finished (a : α) (s : RunState) (next : α → RunState → Progress β) :
    (Progress.finished a s).bind next = next a s := rfl

@[simp] theorem bind_halted (why : Halt) (next : α → RunState → Progress β) :
    (Progress.halted why : Progress α).bind next = .halted why := rfl

theorem bind_finished_right (p : Progress α) : p.bind .finished = p := by
  induction p with
  | finished a s => rfl
  | waiting due order s resume ih => simp [bind, ih]
  | halted why => rfl

theorem bind_assoc {γ : Type} (p : Progress α) (f : α → RunState → Progress β)
    (g : β → RunState → Progress γ) :
    (p.bind f).bind g = p.bind fun a s => (f a s).bind g := by
  induction p with
  | finished a s => rfl
  | waiting due order s resume ih => simp [bind, ih]
  | halted why => rfl

end Progress

/-! ## Tasks -/

/-- Work on the state of a run. -/
def Task (α : Type) := RunState → Progress α

namespace Task

variable {α β ε : Type}

def pure (a : α) : Task α := fun s => .finished a s

def bind (t : Task α) (next : α → Task β) : Task β := fun s => (t s).bind next

instance : Monad Task where
  pure := pure
  bind := bind

def state : Task RunState := fun s => .finished s s

def update (change : RunState → RunState) : Task Unit := fun s => .finished () (change s)

def updateScope (change : Scope → Scope) : Task Unit :=
  update fun s => { s with scope := change s.scope }

/-- Work on another scope than that of the run, which is returned with the result. -/
def apart (own : Scope) (t : Task α) : Task (α × Scope) := fun s =>
  (t { s with scope := own }).apart s.scope

def report (e : Event) : Task Unit :=
  update fun s => { s with log := e :: s.log }

def halt (why : Halt) : Task α := fun _ => .halted why

/-- Wait for some milliseconds; no time at all is no wait. -/
def sleep (milliseconds : Nat) : Task Unit := fun s =>
  if milliseconds = 0 then .finished () s
  else
    .waiting (s.clock + milliseconds) s.timers { s with timers := s.timers + 1 }
      fun now => .finished () now

/-- The results of tasks side by side, started in order.  The first failure ends all of them, and
what has not been started then never is. -/
def join : List (Task (Except ε α)) → Task (Except ε (List α))
  | [] => pure (.ok [])
  | t :: rest => fun s =>
    -- the others start from where the first one waits
    let first := t s
    first.unlessFailed id fun s =>
      (first.beside .eager (join rest s)).map (Except.map fun r => r.1 :: r.2)

/-- Start tasks side by side behind the ones under way, whose results come last first. -/
def joinInOrderFrom : List (Task (Except ε α)) → Progress (Except ε (List α)) →
    Progress (Except ε (List α))
  | [], started => started.settle
  | t :: rest, started =>
    let more := started.unlessFailed id fun s =>
      (started.beside .ordered (t s)).map (Except.map fun r => r.2 :: r.1)
    joinInOrderFrom rest more

/-- The results of tasks side by side, where a failure only counts when all tasks in front of it
have finished. -/
def joinInOrder (tasks : List (Task (Except ε α))) : Task (Except ε (List α)) := fun s =>
  (joinInOrderFrom tasks (.finished (.ok []) s)).map (Except.map List.reverse)

/-- The number of tasks up to which the first failure ends all of them. -/
def joinLimit : Nat := 30

/-- The results of tasks side by side, in the order of the tasks. -/
def together (tasks : List (Task (Except ε α))) : Task (Except ε (List α)) :=
  if tasks.length ≤ joinLimit then join tasks else joinInOrder tasks

def run (t : Task α) (s : RunState) : Except Halt (α × RunState) :=
  (t s).complete

end Task

/-- Work that can fail. -/
abbrev Attempt (α : Type) := ExceptT Failure Task α

namespace Attempt

def ofTask {α : Type} (t : Task α) : Attempt α := ExceptT.lift t

def ofExcept {α : Type} : Except Failure α → Attempt α
  | .ok a => Pure.pure a
  | .error e => throw e

def expression (find : Scope → Except ExpressionError Value) : Attempt Value := do
  let s ← ofTask Task.state
  match find s.scope with
  | .ok v => return v
  | .error e => if e.isCrash then ofTask (Task.halt .crashed) else throw (.expression e)

def put (name : String) (v : Value) : Attempt Unit :=
  ofTask (Task.updateScope fun s => s.put name v)

/-- Work whose failure tells what was going on. -/
def during {α : Type} (circumstance : Circumstance) (work : Attempt α) : Attempt α :=
  ExceptT.mk (do
    match ← work.run with
    | .ok a => return .ok a
    | .error e => return .error (.during circumstance e))

/-! ## Running attempts -/

/-- An attempt goes on after a success and keeps a failure. -/
theorem run_bind {α β : Type} (t : Attempt α) (next : α → Attempt β) (s : RunState) :
    (t >>= next).run s = (t.run s).bind fun result s =>
      match result with
      | .ok a => (next a).run s
      | .error e => .finished (.error e) s := by
  change (t.run s).bind _ = _
  congr 1
  funext result s
  cases result with
  | ok a => rfl
  | error e => rfl

theorem run_expression {find : Scope → Except ExpressionError Value} {v : Value} {s : RunState}
    (h : find s.scope = .ok v) : (expression find).run s = .finished (.ok v) s := by
  unfold expression
  rw [run_bind]
  change (match find s.scope with | .ok v => _ | .error e => _ : Attempt Value).run s = _
  rw [h]
  rfl

/-- Nor does looking for one that has no value. -/
theorem run_expression_error {find : Scope → Except ExpressionError Value} {e : ExpressionError}
    {s : RunState} (h : find s.scope = .error e) :
    (expression find).run s =
      if e.isCrash then .halted .crashed else .finished (.error (.expression e)) s := by
  unfold expression
  rw [run_bind]
  change (match find s.scope with | .ok v => _ | .error e => _ : Attempt Value).run s = _
  rw [h]
  dsimp only
  by_cases hcrash : e.isCrash = true
  · rw [if_pos hcrash, if_pos hcrash]
    rfl
  · rw [if_neg hcrash, if_neg hcrash]
    rfl

end Attempt

end StepScript
