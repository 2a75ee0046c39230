/-!
The clock calls for ticks until one ends the run, fails, or a limit is reached. The rate sets only
when the ticks come, never how many: each is due at a fixed time from the start of the run, so a late
one delays no other. The counter of issued ticks has 64 bits; a run without a limit that has used
them up has no result.
-/

namespace OneBus

structure Clock where
  /-- nanoseconds between two ticks; `none` when nothing is waited for -/
  period : Option Nat
  deriving DecidableEq

namespace Clock

def defaultRate : Nat := 128

/-- so many ticks a second, with 0 for as many as possible -/
def ofRate (rate : Nat) : Clock := ⟨if rate = 0 then none else some (1000000000 / rate)⟩

def default : Clock := ofRate defaultRate

def unthrottled : Clock := ⟨none⟩

def maxTicks : Nat := UInt64.size - 1

/-- a schedule has so many entries; later ticks come with the last one -/
def maxScheduled : Nat := UInt32.size - 1

/-- nanoseconds from the start of a run to the tick that comes after `issued` others -/
def due? (clock : Clock) (issued : Nat) : Option Nat :=
  clock.period.map (· * min issued maxScheduled)

section

variable {m : Type → Type} [Monad m] {ε : Type}

/-- at most so many calls of `tick`, which is told how many were before it and says whether to go
on; gives the number of calls, if one of them ended the run or if there is a limit -/
@[specialize]
def issue (tick : Nat → m (Except ε Bool)) (limited : Bool) :
    Nat → Nat → m (Option (Except ε Nat))
  | 0, issued => return if limited then some (.ok issued) else none
  | left + 1, issued => do
    match ← tick issued with
    | .ok true => issue tick limited left (issued + 1)
    | .ok false => return some (.ok (issued + 1))
    | .error e => return some (.error e)

/-- ticks on schedule; `wait` is told when the next one is due -/
@[specialize]
def run (clock : Clock) (limit : Option Nat) (wait : Nat → m Unit) (tick : m (Except ε Bool)) :
    m (Option (Except ε Nat)) :=
  issue (fun issued => do
    if let some due := clock.due? issued then wait due
    tick) limit.isSome (limit.getD maxTicks) 0

end

theorem issue_succ {σ ε : Type} (tick : Nat → StateM σ (Except ε Bool)) (limited : Bool)
    (left issued : Nat) (s : σ) :
    issue tick limited (left + 1) issued s =
      match tick issued s with
      | (.ok true, s) => issue tick limited left (issued + 1) s
      | (.ok false, s) => (some (.ok (issued + 1)), s)
      | (.error e, s) => (some (.error e), s) := by
  rw [issue]
  change StateT.bind (m := Id) (tick issued) _ s = _
  unfold StateT.bind
  rcases h : tick issued s with ⟨_ | b, t⟩
  · rfl
  · cases b <;> rfl

/-- without waiting, the rate of the clock does not matter -/
theorem run_noWait {σ ε : Type} (clock : Clock) (limit : Option Nat)
    (tick : StateM σ (Except ε Bool)) :
    clock.run limit (fun _ => pure ()) tick =
      issue (fun _ => tick) limit.isSome (limit.getD maxTicks) 0 := by
  unfold run
  congr
  funext issued
  cases clock.due? issued <;> rfl

end Clock
end OneBus
