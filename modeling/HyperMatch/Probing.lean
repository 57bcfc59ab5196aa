import Mathlib.Data.List.Perm.Subperm
import Mathlib.Data.Nat.Find
import Mathlib.Logic.Function.Basic

/-!
Hash tables with linear probing and deletion by back-shifting. A table is the
function of its places; a key stands at or after its home, going around, with no
empty place on the way. `Probed` keeps that and the set of the keys held. Taking a
key out opens a gap; `Gap` says what still holds while a cursor runs behind it, and
its rules are the three things the cursor can meet: the end of the run, a key that
stays, a key that moves into the gap.
-/
namespace HyperMatch.Probing

variable {K β : Type}

/-- An index below twice the size, brought back into the table. -/
def wrap (size i : Nat) : Nat := if i < size then i else i - size
/-- The steps from a place to another, going around. -/
def dist (size i j : Nat) : Nat := if i ≤ j then j - i else j + size - i

theorem wrap_lt {size i d : Nat} (inside : i < size) (short : d < size) : wrap size (i+d) < size := by
  unfold wrap; split_ifs <;> omega
theorem wrap_wrap {size i d : Nat} (inside : i < size) (short : d + 1 < size) :
    wrap size (wrap size (i+1) + d) = wrap size (i + (d+1)) := by
  unfold wrap; split_ifs <;> omega
theorem wrap_dist {size i j : Nat} (inside : i < size) (inside' : j < size) : wrap size (i + dist size i j) = j := by
  unfold wrap dist; split_ifs <;> omega
theorem dist_lt {size i j : Nat} (inside : i < size) (inside' : j < size) : dist size i j < size := by
  unfold dist; split_ifs <;> omega
theorem dist_wrap {size i d : Nat} (inside : i < size) (short : d < size) : dist size i (wrap size (i+d)) = d := by
  unfold wrap dist; split_ifs <;> omega

/-! ### Probing -/

/-- Try places in order until one answers; `none` when the bound is too small. -/
def probe (next : Nat → Nat) (visit : Nat → Option β) : Nat → Nat → Option β
  | 0,_ => none
  | bound+1,i =>
    match visit i with
    | some answer => some answer
    | none => probe next visit bound (next i)

/-- The loop answers what the first place that answers does. -/
theorem probe_first {size : Nat} {next : Nat → Nat} (steps : ∀ i, i < size → next i = wrap size (i+1))
    {visit : Nat → Option β} {answer : β} {i d bound : Nat} (inside : i < size) (short : d < size) (enough : d < bound)
    (before : ∀ c, c < d → visit (wrap size (i+c)) = none) (stop : visit (wrap size (i+d)) = some answer) :
    probe next visit bound i = some answer := by
  induction d generalizing i bound with
  | zero =>
    obtain ⟨bound,rfl⟩ := Nat.exists_eq_succ_of_ne_zero (by omega : bound ≠ 0)
    have here : wrap size (i+0) = i := by unfold wrap; split_ifs <;> omega
    rw [here] at stop
    simp [probe,stop]
  | succ d ih =>
    obtain ⟨bound,rfl⟩ := Nat.exists_eq_succ_of_ne_zero (by omega : bound ≠ 0)
    have here : visit i = none := by
      have first := before 0 (by omega)
      rwa [show wrap size (i+0) = i by unfold wrap; split_ifs <;> omega] at first
    rw [probe,here]
    simp only [steps i inside]
    refine ih (wrap_lt inside (by omega)) (by omega) (by omega) ?_ ?_
    · intro c less
      rw [wrap_wrap inside (by omega)]
      exact before (c+1) (by omega)
    · rw [wrap_wrap inside short]
      exact stop

/-- The nearest empty place at or after a place, when there is one. -/
theorem nearest_empty {size : Nat} {table : Nat → Option K} {i hole : Nat} (inside : i < size) (holeIn : hole < size)
    (empty : table hole = none) :
    ∃ d, d < size ∧ table (wrap size (i+d)) = none ∧ ∀ c, c < d → table (wrap size (i+c)) ≠ none := by
  classical
  have some : ∃ d, table (wrap size (i+d)) = none := ⟨dist size i hole,by rw [wrap_dist inside holeIn]; exact empty⟩
  refine ⟨Nat.find some,?_,Nat.find_spec some,fun c less => Nat.find_min some less⟩
  refine Nat.lt_of_le_of_lt (Nat.find_min' some ?_) (dist_lt inside holeIn)
  rw [wrap_dist inside holeIn]
  exact empty

/-! ### Tables -/

/-- The table holds these keys, each once and reachable from its home. -/
structure Probed (size : Nat) (home : K → Nat) (table : Nat → Option K) (holds : K → Prop) : Prop where
  homes : ∀ k, home k < size
  keys : ∀ k, holds k ↔ ∃ i, i < size ∧ table i = some k
  unique : ∀ i j k, i < size → j < size → table i = some k → table j = some k → i = j
  path : ∀ i k, i < size → table i = some k → ∀ d, d < dist size (home k) i → table (wrap size (home k + d)) ≠ none

section
variable {size : Nat} {home : K → Nat} {table : Nat → Option K} {holds : K → Prop}

/-- A table of more places than keys has an empty place. -/
theorem Probed.empty_place (h : Probed size home table holds) {held : List K} (covers : ∀ k, holds k → k ∈ held)
    (fewer : held.length < size) : ∃ i, i < size ∧ table i = none := by
  by_contra full
  push Not at full
  have keyed : ∀ i, i < size → ∃ k, table i = some k := fun i inside => Option.ne_none_iff_exists'.mp (full i inside)
  have all : ((List.range size).filterMap table).length = size := by
    rw [List.length_filterMap_eq_countP,List.countP_eq_length.mpr]
    · exact List.length_range
    · intro i m
      obtain ⟨k,found⟩ := keyed i (List.mem_range.mp m)
      rw [found]; rfl
  have distinct : ((List.range size).filterMap table).Nodup := by
    refine List.pairwise_filterMap.mpr (List.nodup_range.imp_of_mem ?_)
    rintro i j inI inJ different k foundI k' foundJ rfl
    exact different (h.unique i j k (List.mem_range.mp inI) (List.mem_range.mp inJ) foundI foundJ)
  have covered : (List.range size).filterMap table ⊆ held := by
    intro k m
    obtain ⟨i,inside,found⟩ := List.mem_filterMap.mp m
    exact covers k ((h.keys k).mpr ⟨i,List.mem_range.mp inside,found⟩)
  have bound := (List.subperm_of_subset distinct covered).length_le
  omega

/-- The visit of a search for a key: its place, `some none` at an empty place. -/
def seekKey [DecidableEq K] (table : Nat → Option K) (k : K) (i : Nat) : Option (Option Nat) :=
  match table i with
  | none => some none
  | some other => if other = k then some (some i) else none

theorem Probed.find_held [DecidableEq K] (h : Probed size home table holds) {next : Nat → Nat}
    (steps : ∀ i, i < size → next i = wrap size (i+1)) {i bound : Nat} {k : K} (inside : i < size)
    (here : table i = some k) (enough : size ≤ bound) :
    probe next (seekKey table k) bound (home k) = some (some i) := by
  have short := dist_lt (h.homes k) inside
  refine probe_first steps (h.homes k) short (by omega) ?_ ?_
  · intro c less
    have occupied := h.path i k inside here c less
    obtain ⟨other,found⟩ := Option.ne_none_iff_exists'.mp occupied
    have different : other ≠ k := by
      rintro rfl
      have same := h.unique _ _ _ (wrap_lt (h.homes other) (by omega)) inside found here
      have steps := dist_wrap (h.homes other) (show c < size by omega)
      rw [same] at steps
      omega
    simp [seekKey,found,different]
  · rw [wrap_dist (h.homes k) inside]
    simp [seekKey,here]

theorem Probed.find_missing [DecidableEq K] (h : Probed size home table holds) {next : Nat → Nat}
    (steps : ∀ i, i < size → next i = wrap size (i+1)) {hole bound : Nat} {k : K} (holeIn : hole < size)
    (empty : table hole = none) (missing : ¬ holds k) (enough : size ≤ bound) :
    probe next (seekKey table k) bound (home k) = some none := by
  obtain ⟨d,short,free,before⟩ := nearest_empty (h.homes k) holeIn empty
  refine probe_first steps (h.homes k) short (by omega) ?_ ?_
  · intro c less
    obtain ⟨other,found⟩ := Option.ne_none_iff_exists'.mp (before c less)
    have different : other ≠ k := by
      rintro rfl
      exact missing ((h.keys other).mpr ⟨_,wrap_lt (h.homes other) (by omega),found⟩)
    simp [seekKey,found,different]
  · simp [seekKey,free]

/-- Putting a new key at the nearest empty place from its home. -/
theorem Probed.insert (h : Probed size home table holds) {k : K} (missing : ¬ holds k) {d : Nat} (short : d < size)
    (free : table (wrap size (home k + d)) = none)
    (before : ∀ c, c < d → table (wrap size (home k + c)) ≠ none) :
    Probed size home (Function.update table (wrap size (home k + d)) (some k)) (fun x => holds x ∨ x = k) := by
  have placeIn := wrap_lt (h.homes k) short
  have occupied : ∀ i, table i ≠ none → Function.update table (wrap size (home k + d)) (some k) i ≠ none := by
    intro i full
    rw [Function.update_apply]
    split_ifs
    · simp
    · exact full
  have absent : ∀ i, i < size → table i ≠ some k := fun i inside found => missing ((h.keys k).mpr ⟨i,inside,found⟩)
  refine ⟨h.homes,?_,?_,?_⟩
  · intro x
    constructor
    · rintro (held | rfl)
      · obtain ⟨i,inside,found⟩ := (h.keys x).mp held
        have other : i ≠ wrap size (home k + d) := by rintro rfl; rw [free] at found; cases found
        exact ⟨i,inside,by rw [Function.update_of_ne other]; exact found⟩
      · exact ⟨_,placeIn,Function.update_self _ _ _⟩
    · rintro ⟨i,inside,found⟩
      rw [Function.update_apply] at found
      split_ifs at found
      · exact .inr (Option.some.inj found).symm
      · exact .inl ((h.keys x).mpr ⟨i,inside,found⟩)
  · intro i j x insideI insideJ foundI foundJ
    rw [Function.update_apply] at foundI foundJ
    split_ifs at foundI foundJ with atI atJ atJ
    · rw [atI,atJ]
    · obtain rfl := Option.some.inj foundI
      exact absurd foundJ (absent j insideJ)
    · obtain rfl := Option.some.inj foundJ
      exact absurd foundI (absent i insideI)
    · exact h.unique i j x insideI insideJ foundI foundJ
  · intro i x inside found c less
    rw [Function.update_apply] at found
    split_ifs at found with here
    · obtain rfl := Option.some.inj found
      rw [here,dist_wrap (h.homes k) short] at less
      exact occupied _ (before c less)
    · exact occupied _ (h.path i x inside found c less)
end

/-! ### Taking a key out -/

/-- The places counted from behind an empty one, which thereby comes last. -/
def pos (size wall i : Nat) : Nat := dist size (wrap size (wall+1)) i

/-- A place is cyclically behind the hole and no further than the cursor. -/
def Within (hole cursor i : Nat) : Prop := if hole ≤ cursor then hole < i ∧ i ≤ cursor else hole < i ∨ i ≤ cursor

instance (hole cursor i : Nat) : Decidable (Within hole cursor i) := by unfold Within; infer_instance

section
variable {size wall i j : Nat}

theorem pos_lt (wallIn : wall < size) (inside : i < size) : pos size wall i < size := by
  unfold pos wrap dist; split_ifs <;> omega
theorem pos_wall (wallIn : wall < size) : pos size wall wall = size - 1 := by
  unfold pos wrap dist; split_ifs <;> omega
theorem pos_inj (wallIn : wall < size) (inside : i < size) (inside' : j < size)
    (same : pos size wall i = pos size wall j) : i = j := by
  unfold pos wrap dist at same; split_ifs at same <;> omega
theorem pos_next (wallIn : wall < size) (inside : i < size) (short : pos size wall i + 1 < size) :
    wrap size (i+1) < size ∧ pos size wall (wrap size (i+1)) = pos size wall i + 1 := by
  unfold pos wrap dist at *; split_ifs at * <;> omega
theorem within_iff {k : Nat} (wallIn : wall < size) (insideI : i < size) (insideJ : j < size) (insideK : k < size)
    (order : pos size wall i < pos size wall j) (behind : pos size wall k ≤ pos size wall j) :
    Within i j k ↔ pos size wall i < pos size wall k := by
  unfold Within pos wrap dist at *; split_ifs at * <;> omega

/-- A way that does not pass the wall, in both counts. -/
theorem dist_of_pos (wallIn : wall < size) (insideI : i < size) (insideJ : j < size)
    (order : pos size wall i ≤ pos size wall j) : dist size i j = pos size wall j - pos size wall i := by
  unfold pos wrap dist at *; split_ifs at * <;> omega
theorem pos_wrap {d : Nat} (wallIn : wall < size) (insideI : i < size) (short : pos size wall i + d < size) :
    pos size wall (wrap size (i+d)) = pos size wall i + d := by
  unfold pos wrap dist at *; split_ifs at * <;> omega
theorem dist_wall_lt (wallIn : wall < size) (insideI : i < size) (insideJ : j < size)
    (order : ¬ pos size wall i ≤ pos size wall j) : dist size i wall < dist size i j := by
  unfold pos wrap dist at *; split_ifs at * <;> omega
end

/-- A table with a gap at the hole: no way to a key passes it, unless the key is
    behind the cursor. -/
structure Gap (size : Nat) (home : K → Nat) (table : Nat → Option K) (holds : K → Prop) (wall hole cursor : Nat) :
    Prop where
  homes : ∀ k, home k < size
  wallIn : wall < size
  wallFree : table wall = none
  holeIn : hole < size
  cursorIn : cursor < size
  free : table hole = none
  order : pos size wall hole ≤ pos size wall cursor
  short : pos size wall cursor + 1 < size
  keys : ∀ k, holds k ↔ ∃ i, i < size ∧ table i = some k
  unique : ∀ i j k, i < size → j < size → table i = some k → table j = some k → i = j
  behind : ∀ i k, i < size → table i = some k → pos size wall (home k) ≤ pos size wall i
  path : ∀ i k, i < size → table i = some k → ∀ j, j < size → pos size wall (home k) ≤ pos size wall j →
    pos size wall j < pos size wall i → table j ≠ none ∨ (j = hole ∧ pos size wall cursor < pos size wall i)

section
variable {size : Nat} {home : K → Nat} {table : Nat → Option K} {holds : K → Prop}

/-- Emptying the place of a key opens a gap there. -/
theorem Probed.gap (h : Probed size home table holds) {wall i : Nat} {k : K} (wallIn : wall < size)
    (wallFree : table wall = none) (inside : i < size) (here : table i = some k) :
    Gap size home (Function.update table i none) (fun x => holds x ∧ x ≠ k) wall i i := by
  have notWall : i ≠ wall := by rintro rfl; rw [wallFree] at here; cases here
  have emptied : ∀ j x, Function.update table i none j = some x → table j = some x ∧ j ≠ i := by
    intro j x found
    rw [Function.update_apply] at found
    split_ifs at found with same
    exact ⟨found,same⟩
  have behind : ∀ j x, j < size → table j = some x → pos size wall (home x) ≤ pos size wall j := by
    intro j x insideJ found
    by_contra past
    have way := h.path j x insideJ found _ (dist_wall_lt wallIn (h.homes x) insideJ past)
    rw [wrap_dist (h.homes x) wallIn] at way
    exact way wallFree
  have last := pos_wall wallIn
  have far := pos_lt wallIn inside
  refine ⟨h.homes,wallIn,?_,inside,inside,Function.update_self _ _ _,Nat.le_refl _,?_,?_,?_,?_,?_⟩
  · rw [Function.update_of_ne (Ne.symm notWall)]; exact wallFree
  · have different : pos size wall i ≠ pos size wall wall := fun same => notWall (pos_inj wallIn inside wallIn same)
    omega
  · intro x
    constructor
    · rintro ⟨held,other⟩
      obtain ⟨j,insideJ,found⟩ := (h.keys x).mp held
      have away : j ≠ i := by rintro rfl; rw [here] at found; exact other (Option.some.inj found).symm
      exact ⟨j,insideJ,by rw [Function.update_of_ne away]; exact found⟩
    · rintro ⟨j,insideJ,found⟩
      obtain ⟨old,away⟩ := emptied j x found
      refine ⟨(h.keys x).mpr ⟨j,insideJ,old⟩,?_⟩
      rintro rfl
      exact away (h.unique j i x insideJ inside old here)
  · intro a b x insideA insideB foundA foundB
    exact h.unique a b x insideA insideB (emptied a x foundA).1 (emptied b x foundB).1
  · intro j x insideJ found
    exact behind j x insideJ (emptied j x found).1
  · intro j x insideJ found y insideY after before
    obtain ⟨old,_⟩ := emptied j x found
    by_cases same : y = i
    · exact .inr ⟨same,by rw [← same]; exact before⟩
    · refine .inl ?_
      rw [Function.update_of_ne same]
      have way := h.path j x insideJ old (dist size (home x) y) ?_
      · rwa [wrap_dist (h.homes x) insideY] at way
      · rw [dist_of_pos wallIn (h.homes x) insideY after,
          dist_of_pos wallIn (h.homes x) insideJ (behind j x insideJ old)]
        omega

variable {wall hole cursor : Nat}

/-- At the end of the run the gap does no harm. -/
theorem Gap.close (h : Gap size home table holds wall hole cursor) (empty : table (wrap size (cursor+1)) = none) :
    Probed size home table holds := by
  obtain ⟨nextIn,nextPos⟩ := pos_next h.wallIn h.cursorIn h.short
  refine ⟨h.homes,h.keys,h.unique,?_⟩
  intro i k inside found d less
  have behind := h.behind i k inside found
  have bound := pos_lt h.wallIn inside
  rw [dist_of_pos h.wallIn (h.homes k) inside behind] at less
  have place := pos_wrap (i := home k) (d := d) h.wallIn (h.homes k) (by omega)
  have placeIn := wrap_lt (h.homes k) (show d < size by omega)
  rcases h.path i k inside found _ placeIn (by omega) (by omega) with full | ⟨same,past⟩
  · exact full
  · -- the way would pass the empty place behind the cursor
    rw [same] at place
    have order := h.order
    by_cases atNext : pos size wall i = pos size wall (wrap size (cursor+1))
    · rw [pos_inj h.wallIn inside nextIn atNext,empty] at found
      cases found
    · rcases h.path i k inside found _ nextIn (by omega) (by omega) with full | ⟨clash,_⟩
      · exact absurd empty full
      · rw [clash] at nextPos
        omega

/-- A key whose home is behind the hole stays. -/
theorem Gap.pass (h : Gap size home table holds wall hole cursor) {k : K}
    (full : table (wrap size (cursor+1)) = some k) (stays : Within hole (wrap size (cursor+1)) (home k)) :
    Gap size home table holds wall hole (wrap size (cursor+1)) := by
  obtain ⟨nextIn,nextPos⟩ := pos_next h.wallIn h.cursorIn h.short
  have order := h.order
  have behind := h.behind _ k nextIn full
  rw [within_iff h.wallIn h.holeIn nextIn (h.homes k) (by omega) behind] at stays
  have notWall : pos size wall (wrap size (cursor+1)) ≠ pos size wall wall := by
    intro same
    rw [pos_inj h.wallIn nextIn h.wallIn same,h.wallFree] at full
    cases full
  have last := pos_wall h.wallIn
  have bound := pos_lt h.wallIn nextIn
  refine ⟨h.homes,h.wallIn,h.wallFree,h.holeIn,nextIn,h.free,by omega,by omega,h.keys,h.unique,h.behind,?_⟩
  intro i x inside found j insideJ after before
  rcases h.path i x inside found j insideJ after before with occupied | ⟨same,past⟩
  · exact .inl occupied
  · refine .inr ⟨same,?_⟩
    by_contra near
    have atNext : i = wrap size (cursor+1) := pos_inj h.wallIn inside nextIn (by omega)
    rw [atNext,full] at found
    obtain rfl := Option.some.inj found
    rw [same] at after
    omega

/-- What stands where once a key has been moved from the next place into the hole. -/
theorem moved_some {hole next i : Nat} {k x : K}
    (found : Function.update (Function.update table hole (some k)) next none i = some x) :
    i ≠ next ∧ ((i = hole ∧ x = k) ∨ (i ≠ hole ∧ table i = some x)) := by
  simp only [Function.update_apply] at found
  split_ifs at found with atNext atHole
  · exact ⟨atNext,.inl ⟨atHole,(Option.some.inj found).symm⟩⟩
  · exact ⟨atNext,.inr ⟨atHole,found⟩⟩

theorem moved_occupied {hole next i : Nat} {k : K} (away : i ≠ next) (filled : table i ≠ none ∨ i = hole) :
    Function.update (Function.update table hole (some k)) next none i ≠ none := by
  rcases filled with filled | rfl
  · rw [Function.update_of_ne away,Function.update_apply]
    split_ifs
    · simp
    · exact filled
  · rw [Function.update_of_ne away,Function.update_self]
    simp

/-- Any other key moves into the hole and leaves the gap at its own place. -/
theorem Gap.move (h : Gap size home table holds wall hole cursor) {k : K}
    (full : table (wrap size (cursor+1)) = some k) (moves : ¬ Within hole (wrap size (cursor+1)) (home k)) :
    Gap size home (Function.update (Function.update table hole (some k)) (wrap size (cursor+1)) none) holds wall
      (wrap size (cursor+1)) (wrap size (cursor+1)) := by
  obtain ⟨nextIn,nextPos⟩ := pos_next h.wallIn h.cursorIn h.short
  have order := h.order
  have behind := h.behind _ k nextIn full
  rw [within_iff h.wallIn h.holeIn nextIn (h.homes k) (by omega) behind] at moves
  have notWall : pos size wall (wrap size (cursor+1)) ≠ pos size wall wall := by
    intro same
    rw [pos_inj h.wallIn nextIn h.wallIn same,h.wallFree] at full
    cases full
  have last := pos_wall h.wallIn
  have bound := pos_lt h.wallIn nextIn
  have apart : hole ≠ wrap size (cursor+1) := by
    intro same
    rw [same] at order
    omega
  have holeWall : hole ≠ wall := by
    rintro rfl
    omega
  have nextWall : wrap size (cursor+1) ≠ wall := by
    intro same
    rw [same] at notWall
    exact notWall rfl
  generalize wrap size (cursor+1) = next at *
  refine ⟨h.homes,h.wallIn,?_,nextIn,nextIn,Function.update_self _ _ _,Nat.le_refl _,by omega,?_,?_,?_,?_⟩
  · rw [Function.update_of_ne (Ne.symm nextWall),Function.update_of_ne (Ne.symm holeWall)]
    exact h.wallFree
  · intro x
    rw [h.keys x]
    constructor
    · rintro ⟨i,inside,found⟩
      have away : i ≠ hole := by rintro rfl; rw [h.free] at found; cases found
      by_cases atNext : i = next
      · rw [atNext,full] at found
        obtain rfl := Option.some.inj found
        exact ⟨hole,h.holeIn,by rw [Function.update_of_ne apart,Function.update_self]⟩
      · exact ⟨i,inside,by rw [Function.update_of_ne atNext,Function.update_of_ne away]; exact found⟩
    · rintro ⟨i,inside,found⟩
      rcases moved_some found with ⟨_,⟨_,rfl⟩ | ⟨_,old⟩⟩
      · exact ⟨next,nextIn,full⟩
      · exact ⟨i,inside,old⟩
  · intro i j x insideI insideJ foundI foundJ
    rcases moved_some foundI with ⟨awayI,⟨atI,rfl⟩ | ⟨_,oldI⟩⟩ <;>
      rcases moved_some foundJ with ⟨awayJ,⟨atJ,same⟩ | ⟨_,oldJ⟩⟩
    · rw [atI,atJ]
    · exact absurd (h.unique j next x insideJ nextIn oldJ full) awayJ
    · rw [same] at oldI
      exact absurd (h.unique i next k insideI nextIn oldI full) awayI
    · exact h.unique i j x insideI insideJ oldI oldJ
  · intro i x inside found
    rcases moved_some found with ⟨_,⟨rfl,rfl⟩ | ⟨_,old⟩⟩
    · omega
    · exact h.behind i x inside old
  · intro i x inside found j insideJ past before
    rcases moved_some found with ⟨away,⟨rfl,rfl⟩ | ⟨_,old⟩⟩
    · refine .inl (moved_occupied ?_ ?_)
      · rintro rfl; omega
      · rcases h.path next x nextIn full j insideJ past (by omega) with filled | ⟨same,_⟩
        · exact .inl filled
        · exact .inr same
    · by_cases atNext : j = next
      · refine .inr ⟨atNext,?_⟩
        rw [atNext] at before
        exact before
      · refine .inl (moved_occupied atNext ?_)
        rcases h.path i x inside old j insideJ past before with filled | ⟨same,_⟩
        · exact .inl filled
        · exact .inr same

/-- The visit of the cursor: `some none` at the end of the run, the place of a key
    that moves, no answer at a key that stays. -/
def seekMove (home : K → Nat) (table : Nat → Option K) (hole j : Nat) : Option (Option Nat) :=
  match table j with
  | none => some none
  | some k => if Within hole j (home k) then none else some (some j)

/-- The cursor reaches the end of the run or a key that moves. -/
theorem Gap.advance {next : Nat → Nat} (steps : ∀ i, i < size → next i = wrap size (i+1)) {bound : Nat}
    (h : Gap size home table holds wall hole cursor) (enough : size ≤ pos size wall cursor + bound) :
    (probe next (seekMove home table hole) bound (next cursor) = some none ∧ Probed size home table holds) ∨
      ∃ c k, probe next (seekMove home table hole) bound (next cursor) = some (some (wrap size (c+1))) ∧
        Gap size home table holds wall hole c ∧ pos size wall cursor ≤ pos size wall c ∧
        table (wrap size (c+1)) = some k ∧ ¬ Within hole (wrap size (c+1)) (home k) := by
  induction bound generalizing cursor with
  | zero =>
    have short := h.short
    omega
  | succ bound ih =>
    obtain ⟨nextIn,nextPos⟩ := pos_next h.wallIn h.cursorIn h.short
    rw [steps cursor h.cursorIn,probe]
    cases found : table (wrap size (cursor+1)) with
    | none => exact .inl ⟨by simp [seekMove,found],h.close found⟩
    | some k =>
      by_cases stays : Within hole (wrap size (cursor+1)) (home k)
      · have on := h.pass found stays
        simp only [seekMove,found,stays,if_true]
        rcases ih on (by omega) with ⟨ended,probed⟩ | ⟨c,x,moved,gap,later,there,out⟩
        · exact .inl ⟨ended,probed⟩
        · exact .inr ⟨c,x,moved,gap,by omega,there,out⟩
      · exact .inr ⟨cursor,k,by simp [seekMove,found,stays],h,Nat.le_refl _,found,stays⟩
end

end HyperMatch.Probing
