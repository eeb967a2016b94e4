import MacroGraph.Proofs.Duration
import MacroGraph.Proofs.Engine.Slicing

namespace MacroGraph.Engine
variable {σ τ : Type}

namespace Run

/-- A delay of this amount in this unit is about to be executed. -/
structure Delays (r : Run σ) (n : Node) (amount : Binary64) (unit : String) : Prop where
  alive : r.worker.isAlive = true
  up : r.worker.running = true
  here : r.worker.machine.point = .execute n
  kind : n.kind = .delay
  holds : Evaluation.number r.worker.document r.worker.machine.outputs n "Duration" .one = amount
  counts : n.option "Unit" "seconds" = unit

/-- When the world obliges, the run sleeps slice by slice for this time and leaves the node. -/
def SleepsFor (host : Host σ) (r : Run σ) (n : Node) (span : Duration) : Prop :=
  host.Obliges r.world (r.worker.timing.sleeps span) →
    ∃ k, (r.steps host k).worker = r.worker.goto (.leave n (some Pin.exec)) ∧
      (r.steps host k).events.toList = r.events.toList ++ r.worker.timing.sleeps span

theorem SleepsFor.willing {r : Run Unit} {n : Node} {span : Duration}
    (sleeps : r.SleepsFor Engine.willing n span) :
    ∃ k, (r.steps Engine.willing k).events.toList =
      r.events.toList ++ r.worker.timing.sleeps span := by
  obtain ⟨k, -, made⟩ := sleeps (willing_obliges _ _)
  exact ⟨k, made⟩

variable {r : Run σ} {n : Node} {amount : Binary64} {unit : String}

theorem Delays.isFinite (delays : r.Delays n amount unit) : amount.isFinite = true := by
  rw [← delays.holds]
  exact Value.isFinite_toNumber _

theorem Delays.sleepsFor (host : Host σ) (delays : r.Delays n amount unit) :
    r.SleepsFor host n (.ofAmount amount unit) := by
  have awaits : r.worker.machine.Awaits r.worker.document r.worker.timing n
      (.ofAmount amount unit) .delay := by
    rw [← delays.holds, ← delays.counts]
    exact .delay n delays.here delays.kind
  exact waits_on host (intact_of_isAlive delays.alive) delays.up awaits

end Run

/-- A delay sleeps for the time that its amount stands for and goes on. Of two delays in one unit the
one of the greater amount sleeps no less in all, unless it is so many minutes that their seconds are
infinitely many: these are no time at all. Finitely many seconds beyond the longest time are that
time. -/
theorem longer_delays (host : Host σ) (host' : Host τ) {r : Run σ} {r' : Run τ} {n n' : Node}
    {amount more : Binary64} {unit : String} (first : r.Delays n amount unit)
    (second : r'.Delays n' more unit) (le : amount.le more = true) :
    let slept := fun (t : Timing) amount =>
      ((t.slices (.ofAmount amount unit)).map Duration.nanoseconds).sum
    r.SleepsFor host n (.ofAmount amount unit) ∧ r'.SleepsFor host' n' (.ofAmount more unit) ∧
      (if unit ∈ Duration.minutes ∧ Duration.mostMinutes.lt more = true then
        slept r'.worker.timing more = 0
      else slept r.worker.timing amount ≤ slept r'.worker.timing more) ∧
      ((Duration.inSeconds more unit).isFinite = true →
        (Binary64.ofNat (1 <<< 64)).le (Duration.inSeconds more unit) = true →
        Duration.ofAmount more unit = .longest) := by
  intro slept
  refine ⟨first.sleepsFor host, second.sleepsFor host', ?_, Duration.ofSeconds_of_le⟩
  simp only [slept, Timing.sum_slices]
  split
  · next many =>
    rw [Duration.ofAmount_of_too_many second.isFinite many]
    rfl
  · next few => exact Duration.ofAmount_mono first.isFinite second.isFinite le few

def patient (minutes : Binary64) : Document where
  serial := 0
  nodes := [⟨"s", .start, []⟩,
    ⟨"d", .delay, [("Duration", .number minutes), ("Unit", .text "minutes")]⟩]
  connections := [⟨"s", Pin.exec, "d", Pin.exec, .exec⟩]
  start := "s"
  index := { exec := [(("s", Pin.exec), "d")] }

def perMinute : Timing := { pollInterval := 60000 }

def waiting (minutes : Binary64) : Run Unit :=
  (Run.begin (patient minutes) perMinute none true ()).steps willing 9

/-- Two minutes are waited for longer than one. -/
theorem two_minutes_are_longer :
    let slept := Event.action (.sleep (.ofNat 60))
    let before := [.notice .cleared, .notice (.entered "s"), .notice (.entered "d")]
    (∃ k, ((waiting .one).steps willing k).events.toList = before ++ [slept]) ∧
      (∃ k, ((waiting (.ofNat 2)).steps willing k).events.toList = before ++ [slept, slept]) ∧
      (Duration.ofAmount .one "minutes").nanoseconds ≤
        (Duration.ofAmount (.ofNat 2) "minutes").nanoseconds := by
  intro slept before
  have one : (waiting .one).Delays
      ⟨"d", .delay, [("Duration", .number .one), ("Unit", .text "minutes")]⟩ .one "minutes" :=
    ⟨by decide +kernel, rfl, rfl, rfl, by decide +kernel, rfl⟩
  have two : (waiting (.ofNat 2)).Delays
      ⟨"d", .delay, [("Duration", .number (.ofNat 2)), ("Unit", .text "minutes")]⟩ (.ofNat 2)
      "minutes" :=
    ⟨by decide +kernel, rfl, rfl, rfl, by decide +kernel, rfl⟩
  obtain ⟨first, second, longer, -⟩ := longer_delays willing willing one two (by decide +kernel)
  obtain ⟨k, made⟩ := first.willing
  obtain ⟨k', made'⟩ := second.willing
  have few : ¬ ("minutes" ∈ Duration.minutes ∧
      Duration.mostMinutes.lt (.ofNat 2) = true) := by decide +kernel
  simp only [if_neg few, Timing.sum_slices] at longer
  refine ⟨⟨k, ?_⟩, ⟨k', ?_⟩, longer⟩
  · rw [made]
    decide +kernel
  · rw [made']
    decide +kernel

/-- `10 ^ 307` minutes are waited for less than one: `6 * 10 ^ 308` is no finite number. -/
theorem too_many_minutes_are_no_time :
    let many := Binary64.ofDecimal false 1 307
    let before := [.notice .cleared, .notice (.entered "s"), .notice (.entered "d")]
    many.isFinite = true ∧ Binary64.one.le many = true ∧
      (Run.begin (patient .one) perMinute none true ()).EndsWith willing
        (before ++ [.action (.sleep (.ofNat 60))] ++ [.notice .cleared]) (.ok .completed) ∧
      (Run.begin (patient many) perMinute none true ()).EndsWith willing
        (before ++ [.notice .cleared]) (.ok .completed) ∧
      (Duration.ofAmount many "minutes").nanoseconds <
        (Duration.ofAmount .one "minutes").nanoseconds :=
  ⟨by decide +kernel, by decide +kernel,
    ⟨20, by decide +kernel, by decide +kernel, by decide +kernel⟩,
    ⟨20, by decide +kernel, by decide +kernel, by decide +kernel⟩, by decide +kernel⟩

end MacroGraph.Engine
