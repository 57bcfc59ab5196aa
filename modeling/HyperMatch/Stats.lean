import HyperMatch.Ranks
import HyperMatch.AppState

/-!
The metrics of `gateway-server/src/stats.rs`. Every call holds the mutex, so a life of
the metrics is a list of calls; a point in time is a number of nanoseconds that
`Instant::now` never takes back. A snapshot counts all calls, the submissions of the
last second, and the ranks of the last latencies.
-/
namespace HyperMatch.Stats
open HyperMatch.Ranks

def latencyWindow : Nat := 100000
/-- One second. -/
def throughputWindow : Nat := 1000000000

structure Inner where
  counters : Counters
  latencies : List UInt64
  submissions : List Nat
  deriving Repr, DecidableEq

structure LatencySummary where
  p50 : UInt64
  p99 : UInt64
  max : UInt64
  deriving Repr, DecidableEq

structure MetricsSnapshot where
  counters : Counters
  latencyUs : LatencySummary
  throughputOps : UInt64
  deriving Repr, DecidableEq

def new : Inner := ⟨{},[],[]⟩

/-- The loop over the front of the queue; a duration is never negative. -/
def prune (now : Nat) : List Nat → List Nat
  | [] => []
  | front :: rest => if now - front > throughputWindow then prune now rest else front :: rest

/-- The indices are checked, as those of a slice are. -/
def percentiles (latencies : List UInt64) : Option LatencySummary :=
  if latencies = [] then some ⟨0,0,0⟩
  else do
    let sorted := sorted latencies
    let last := sorted.length - 1
    let p50 ← sorted[min (sorted.length * 50 / 100) last]?
    let p99 ← sorted[min (sorted.length * 99 / 100) last]?
    let max ← sorted[last]?
    return ⟨p50,p99,max⟩

namespace Inner

def recordSubmission (inner : Inner) (now : Nat) : Inner :=
  { inner with
    counters := { inner.counters with ordersSubmitted := inner.counters.ordersSubmitted + 1 }
    submissions := prune now (inner.submissions ++ [now]) }
def recordLatency (inner : Inner) (micros : UInt64) : Inner :=
  { inner with
    latencies :=
      (if inner.latencies.length = latencyWindow then inner.latencies.tail else inner.latencies) ++ [micros] }
def recordAccepted (inner : Inner) : Inner :=
  { inner with counters := { inner.counters with ordersAccepted := inner.counters.ordersAccepted + 1 } }
def recordRejected (inner : Inner) : Inner :=
  { inner with counters := { inner.counters with ordersRejected := inner.counters.ordersRejected + 1 } }
def recordCancel (inner : Inner) : Inner :=
  { inner with counters := { inner.counters with cancels := inner.counters.cancels + 1 } }
def recordTrade (inner : Inner) : Inner :=
  { inner with counters := { inner.counters with trades := inner.counters.trades + 1 } }

/-- What `snapshot` gives out, and the metrics that it has pruned. -/
def snapshot (inner : Inner) (now : Nat) : Option (MetricsSnapshot × Inner) := do
  let inner := { inner with submissions := prune now inner.submissions }
  let throughputOps := UInt64.ofNat inner.submissions.length
  let latencyUs ← percentiles inner.latencies
  return (⟨inner.counters,latencyUs,throughputOps⟩,inner)

end Inner

/-! ### Lives of the metrics -/

inductive Call where
  | submission (now : Nat)
  | latency (micros : UInt64)
  | accepted
  | rejected
  | cancel
  | trade
  | snapshot (now : Nat)
  deriving Repr, DecidableEq

def Inner.call (inner : Inner) : Call → Option Inner
  | .submission now => some (inner.recordSubmission now)
  | .latency micros => some (inner.recordLatency micros)
  | .accepted => some inner.recordAccepted
  | .rejected => some inner.recordRejected
  | .cancel => some inner.recordCancel
  | .trade => some inner.recordTrade
  | .snapshot now => (inner.snapshot now).map Prod.snd

def Inner.calls (inner : Inner) (calls : List Call) : Option Inner := calls.foldlM Inner.call inner

/-- When the clock was read. -/
def Call.clock : Call → Option Nat
  | .submission now => some now
  | .snapshot now => some now
  | _ => none
def Call.submitted : Call → Option Nat
  | .submission now => some now
  | _ => none
def Call.micros : Call → Option UInt64
  | .latency micros => some micros
  | _ => none

/-- How often each thing was recorded. -/
def countersOf (calls : List Call) : Counters where
  ordersSubmitted := UInt64.ofNat (calls.countP (fun c => c.submitted.isSome))
  ordersAccepted := UInt64.ofNat (calls.count .accepted)
  ordersRejected := UInt64.ofNat (calls.count .rejected)
  cancels := UInt64.ofNat (calls.count .cancel)
  trades := UInt64.ofNat (calls.count .trade)

/-- The submissions that are not older than a second. -/
def recent (now : Nat) (times : List Nat) : List Nat := times.filter (fun t => decide (now - t ≤ throughputWindow))

/-- The summary of a window of latencies. -/
def Summarizes (latencies : List UInt64) (summary : LatencySummary) : Prop :=
  if latencies = [] then summary = ⟨0,0,0⟩
  else HasRank latencies (latencies.length * 50 / 100) summary.p50 ∧
    HasRank latencies (latencies.length * 99 / 100) summary.p99 ∧
    summary.max ∈ latencies ∧ (∀ y ∈ latencies, y ≤ summary.max) ∧ summary.p50 ≤ summary.p99 ∧ summary.p99 ≤ summary.max

theorem prune_recent {now : Nat} {times : List Nat} (ascending : times.Pairwise (· ≤ ·)) : prune now times = recent now times := by
  induction times with
  | nil => rfl
  | cons front rest ih =>
    obtain ⟨first,ascending⟩ := List.pairwise_cons.mp ascending
    rw [prune]
    split
    · rename_i old
      rw [ih ascending,recent,recent,List.filter_cons_of_neg (by simp only [decide_eq_true_eq]; omega)]
    · rename_i young
      have all : ∀ t ∈ front :: rest, decide (now - t ≤ throughputWindow) = true := by
        rintro t (_ | ⟨_,inside⟩)
        · simpa using young
        · have later := first t inside
          simp only [decide_eq_true_eq]
          omega
      rw [recent,List.filter_eq_self.mpr all]

/-- Time passes: what was recent later was recent before. -/
theorem recent_recent {before now : Nat} (passes : before ≤ now) (times : List Nat) :
    recent now (recent before times) = recent now times := by
  rw [recent,recent,recent,List.filter_filter]
  refine List.filter_congr ?_
  intro t _
  simp only [Bool.and_eq_left_iff_imp,decide_eq_true_eq]
  omega

theorem percentiles_summarizes (latencies : List UInt64) :
    ∃ summary, percentiles latencies = some summary ∧ Summarizes latencies summary := by
  by_cases none : latencies = []
  · exact ⟨⟨0,0,0⟩,by rw [percentiles,if_pos none],by rw [Summarizes,if_pos none]⟩
  · have some := List.length_pos_iff.mpr none
    have length := sorted_length latencies
    obtain ⟨half,halfAt,half_rank⟩ := sorted_index (l := latencies) (k := latencies.length * 50 / 100) (by omega)
    obtain ⟨most,mostAt,most_rank⟩ := sorted_index (l := latencies) (k := latencies.length * 99 / 100) (by omega)
    obtain ⟨last,lastAt,last_rank⟩ := sorted_index (l := latencies) (k := latencies.length - 1) (by omega)
    rw [length] at halfAt mostAt lastAt
    rw [Nat.min_self] at lastAt
    refine ⟨⟨half,most,last⟩,?_,?_⟩
    · simp only [percentiles,if_neg none,length,halfAt,mostAt,lastAt,Option.bind_eq_bind,Option.bind_some,pure]
    · rw [Summarizes,if_neg none]
      exact ⟨half_rank,most_rank,last_rank.member,last_rank.greatest (by omega),half_rank.le most_rank (by omega),
        most_rank.le last_rank (by omega)⟩

/-! ### Whole lives -/

def clocks (calls : List Call) : List Nat := calls.filterMap Call.clock
def submitted (calls : List Call) : List Nat := calls.filterMap Call.submitted
def samples (calls : List Call) : List UInt64 := calls.filterMap Call.micros

/-- What the metrics hold after some calls, the last of which read the clock at `before`. -/
structure Records (calls : List Call) (before : Nat) (inner : Inner) : Prop where
  counters : inner.counters = countersOf calls
  latencies : inner.latencies = lastOf latencyWindow (samples calls)
  submissions : inner.submissions = recent before (submitted calls)

theorem recent_pairwise {before : Nat} {times : List Nat} (ascending : times.Pairwise (· ≤ ·)) :
    (recent before times).Pairwise (· ≤ ·) := ascending.filter _

/-- Each submission read the clock. -/
theorem submitted_sublist (calls : List Call) : (submitted calls).Sublist (clocks calls) := by
  induction calls with
  | nil => exact .slnil
  | cons call rest ih =>
    cases call with
    | submission now => exact ih.cons_cons now
    | snapshot now => exact ih.cons now
    | latency | accepted | rejected | cancel | trade => exact ih

section
variable {calls : List Call} {before now : Nat} {inner : Inner}

/-- Pruning at a later reading leaves what is recent then. -/
theorem Records.prune_eq (records : Records calls before inner) (ascending : (clocks calls).Pairwise (· ≤ ·))
    (passes : before ≤ now) : prune now inner.submissions = recent now (submitted calls) := by
  rw [records.submissions,prune_recent (recent_pairwise (ascending.sublist (submitted_sublist calls))),
    recent_recent passes]

theorem recent_now (times : List Nat) : recent now (times ++ [now]) = recent now times ++ [now] := by
  rw [recent,List.filter_append]
  simp [recent]

theorem clocks_append (call : Call) : clocks (calls ++ [call]) = clocks calls ++ call.clock.toList := by
  cases call <;> simp [clocks,Call.clock]
theorem submitted_append (call : Call) : submitted (calls ++ [call]) = submitted calls ++ call.submitted.toList := by
  cases call <;> simp [submitted,Call.submitted]
theorem samples_append (call : Call) : samples (calls ++ [call]) = samples calls ++ call.micros.toList := by
  cases call <;> simp [samples,Call.micros]

theorem submitted_quiet {call : Call} (untimed : call.submitted = none) : submitted (calls ++ [call]) = submitted calls := by
  rw [submitted_append,untimed,Option.toList_none,List.append_nil]
theorem samples_quiet {call : Call} (unmeasured : call.micros = none) : samples (calls ++ [call]) = samples calls := by
  rw [samples_append,unmeasured,Option.toList_none,List.append_nil]

theorem Records.recordSubmission (records : Records calls before inner)
    (ascending : (clocks calls ++ [now]).Pairwise (· ≤ ·)) (passes : before ≤ now) :
    Records (calls ++ [.submission now]) now (inner.recordSubmission now) where
  counters := by
    rw [Inner.recordSubmission,records.counters]
    simp [countersOf,Call.submitted]
  latencies := by
    rw [samples_quiet rfl]
    exact records.latencies
  submissions := by
    have sorted : (submitted calls ++ [now]).Pairwise (· ≤ ·) :=
      ascending.sublist ((submitted_sublist calls).append_right [now])
    have pushed : (inner.submissions ++ [now]).Pairwise (· ≤ ·) := by
      rw [records.submissions]
      exact sorted.sublist (List.filter_sublist.append_right [now])
    rw [submitted_append,Inner.recordSubmission,prune_recent pushed,recent_now,records.submissions,recent_recent passes]
    exact (recent_now (submitted calls)).symm

theorem Records.recordLatency (records : Records calls before inner) (micros : UInt64) :
    Records (calls ++ [.latency micros]) before (inner.recordLatency micros) where
  counters := by
    rw [Inner.recordLatency,records.counters]
    simp [countersOf,Call.submitted]
  latencies := by
    rw [samples_append,Inner.recordLatency,records.latencies]
    exact lastOf_append (by decide) _ micros
  submissions := by
    rw [submitted_quiet rfl]
    exact records.submissions

/-- A call that only counts. -/
theorem Records.count (records : Records calls before inner) {call : Call} {counters : Counters}
    (untimed : call.submitted = none) (unmeasured : call.micros = none) (counted : counters = countersOf (calls ++ [call])) :
    Records (calls ++ [call]) before { inner with counters := counters } where
  counters := counted
  latencies := by
    rw [samples_quiet unmeasured]
    exact records.latencies
  submissions := by
    rw [submitted_quiet untimed]
    exact records.submissions

/-- A snapshot prunes and reads. -/
theorem Records.snapshot (records : Records calls before inner) (ascending : (clocks calls).Pairwise (· ≤ ·))
    (passes : before ≤ now) :
    ∃ summary, Summarizes (lastOf latencyWindow (samples calls)) summary ∧
      inner.snapshot now = some (⟨countersOf calls,summary,UInt64.ofNat (recent now (submitted calls)).length⟩,
        { inner with submissions := recent now (submitted calls) }) := by
  obtain ⟨summary,computed,summarizes⟩ := percentiles_summarizes inner.latencies
  rw [records.latencies] at summarizes
  refine ⟨summary,summarizes,?_⟩
  simp only [Inner.snapshot,records.prune_eq ascending passes,computed,records.counters,Option.bind_eq_bind,Option.bind_some,pure]

/-- The latest reading: a later one is at or after it. -/
def Reading (calls : List Call) (before : Nat) : Prop := ∀ now, (∀ t ∈ clocks calls, t ≤ now) → before ≤ now

theorem Records.call (records : Records calls before inner) (reading : Reading calls before) {call : Call}
    (ascending : (clocks (calls ++ [call])).Pairwise (· ≤ ·)) :
    ∃ next after, inner.call call = some next ∧ Records (calls ++ [call]) after next ∧ Reading (calls ++ [call]) after := by
  rw [clocks_append] at ascending
  have past := (List.pairwise_append.mp ascending).1
  have stays : call.clock = none → Reading (calls ++ [call]) before := by
    intro untimed now late
    refine reading now ?_
    rw [clocks_append,untimed,Option.toList_none,List.append_nil] at late
    exact late
  have arrives : ∀ now, call.clock = some now → before ≤ now ∧ Reading (calls ++ [call]) now := by
    intro now timed
    rw [timed] at ascending
    refine ⟨reading now ?_,?_⟩
    · intro t early
      exact (List.pairwise_append.mp ascending).2.2 t early now (List.mem_singleton.mpr rfl)
    · intro later late
      refine late now ?_
      rw [clocks_append,timed]
      simp
  cases call with
  | submission now =>
    obtain ⟨passes,reading⟩ := arrives now rfl
    exact ⟨_,now,rfl,records.recordSubmission ascending passes,reading⟩
  | snapshot now =>
    obtain ⟨passes,reading⟩ := arrives now rfl
    obtain ⟨summary,_,computed⟩ := records.snapshot past passes
    refine ⟨_,now,by rw [Inner.call,computed]; rfl,⟨?_,?_,?_⟩,reading⟩
    · rw [records.counters]
      simp [countersOf,Call.submitted]
    · rw [samples_quiet rfl]
      exact records.latencies
    · rw [submitted_quiet rfl]
  | latency micros => exact ⟨_,before,rfl,records.recordLatency micros,stays rfl⟩
  | accepted => exact ⟨_,before,rfl,records.count rfl rfl (by rw [records.counters]; simp [countersOf,Call.submitted]),stays rfl⟩
  | rejected => exact ⟨_,before,rfl,records.count rfl rfl (by rw [records.counters]; simp [countersOf,Call.submitted]),stays rfl⟩
  | cancel => exact ⟨_,before,rfl,records.count rfl rfl (by rw [records.counters]; simp [countersOf,Call.submitted]),stays rfl⟩
  | trade => exact ⟨_,before,rfl,records.count rfl rfl (by rw [records.counters]; simp [countersOf,Call.submitted]),stays rfl⟩

/-- Induction on the calls from the last. -/
theorem records_calls (ascending : (clocks calls).Pairwise (· ≤ ·)) :
    ∃ inner before, new.calls calls = some inner ∧ Records calls before inner ∧ Reading calls before := by
  induction calls using List.reverseRecOn with
  | nil => exact ⟨new,0,rfl,⟨rfl,(lastOf_nil _).symm,rfl⟩,fun _ _ => Nat.zero_le _⟩
  | append_singleton calls call ih =>
    obtain ⟨inner,before,made,records,reading⟩ := ih (by
      rw [clocks_append] at ascending
      exact (List.pairwise_append.mp ascending).1)
    obtain ⟨next,after,called,records,reading⟩ := records.call reading ascending
    refine ⟨next,after,?_,records,reading⟩
    rw [Inner.calls] at made ⊢
    rw [List.foldlM_append,made]
    simpa using called

end

/-- On every life of the metrics whose clock readings never go back, and whatever snapshots
were taken in between, a snapshot counts every call, the submissions of exactly the last
second, and the ranks of the newest latencies. -/
theorem snapshot_exact {calls : List Call} {now : Nat} (ascending : (clocks calls ++ [now]).Pairwise (· ≤ ·)) :
    ∃ inner shot next, new.calls calls = some inner ∧ inner.snapshot now = some (shot,next) ∧
      shot.counters = countersOf calls ∧
      shot.throughputOps = UInt64.ofNat (recent now (submitted calls)).length ∧
      Summarizes (lastOf latencyWindow (samples calls)) shot.latencyUs := by
  obtain ⟨past,_,late⟩ := List.pairwise_append.mp ascending
  obtain ⟨inner,before,made,records,reading⟩ := records_calls past
  have passes : before ≤ now := reading now (fun t early => late t early now (List.mem_singleton.mpr rfl))
  obtain ⟨summary,summarizes,computed⟩ := records.snapshot past passes
  exact ⟨inner,_,_,made,computed,rfl,rfl,summarizes⟩

/-- The second submission is exactly a second old, the first is older. -/
theorem snapshot_exact_second :
    ∃ inner shot next,
      new.calls [.submission 0,.latency 70,.accepted,.snapshot 5,.submission 10,.latency 30,.trade] = some inner ∧
        inner.snapshot 1000000010 = some (shot,next) ∧
        shot.counters = countersOf [.submission 0,.latency 70,.accepted,.snapshot 5,.submission 10,.latency 30,.trade] ∧
        shot.throughputOps =
          UInt64.ofNat (recent 1000000010
            (submitted [.submission 0,.latency 70,.accepted,.snapshot 5,.submission 10,.latency 30,.trade])).length ∧
        Summarizes
          (lastOf latencyWindow (samples [.submission 0,.latency 70,.accepted,.snapshot 5,.submission 10,.latency 30,.trade]))
          shot.latencyUs :=
  snapshot_exact (by decide)

end HyperMatch.Stats
