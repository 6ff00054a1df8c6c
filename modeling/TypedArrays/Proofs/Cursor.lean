import TypedArrays.Progression

/-! Progressions as lists with a cursor.

A progression from bounds stands for the list of its `n` numbers, `first`, `first + step` and so on, in
exact integers, and a cursor that moves over it. `At` ties the fields of a progression to the number `j`
of elements before the cursor. All numbers of the list are integers of the width (`Spans`), hence no
addition on the way ever wraps. -/

namespace TypedArrays.Progression

variable {w : Width} {first step : Int} {n j : Nat} {p : Progression w}

/-- The number at an index of the list. -/
def item (first step : Int) (k : Nat) : Int := first + k * step

theorem item_succ (first step : Int) (k : Nat) : item first step (k + 1) = item first step k + step := by
  unfold item
  rw [Int.natCast_add, Int.add_mul, Int.natCast_one, Int.one_mul, Int.add_assoc]

/-- All numbers of a list of length `n` are integers of the width. -/
def Spans (w : Width) (first step : Int) (n : Nat) : Prop := ∀ k < n, w.Fits (item first step k)

/-- What is left of a list of length `n` after its first `j` numbers. -/
structure At (first step : Int) (n j : Nat) (p : Progression w) : Prop where
  le : j ≤ n
  step_eq : p.step.val = step
  remaining_eq : p.remaining = n - j
  current_eq : p.current.val = item first step (min j (n - 1))

/-! ### From bounds -/

theorem item_le_of_lt_count {first last step : Word w} (hstep : 1 ≤ step.val) {k : Nat}
    (hk : k < count first last step) : item first.val step.val k ≤ last.val := by
  unfold count at hk
  split at hk
  · omega
  · have hmod := Nat.mod_le ((last.val - first.val) / step.val + 1).toNat countLimit
    have hk' : (k : Int) ≤ (last.val - first.val) / step.val := by omega
    have hmul : (k : Int) * step.val ≤ last.val - first.val := (Int.le_ediv_iff_mul_le (by omega)).mp hk'
    unfold item
    omega

theorem spans_count {first last step : Word w} (hstep : 1 ≤ step.val) :
    Spans w first.val step.val (count first last step) := by
  intro k hk
  have hpos : 0 ≤ (k : Int) * step.val := Int.mul_nonneg (Int.natCast_nonneg k) (by omega)
  have hle := item_le_of_lt_count hstep hk
  refine ⟨?_, Int.le_trans hle last.fits.2⟩
  have hfirst := first.fits.1
  unfold item
  omega

theorem at_ofBounds (first last step : Word w) :
    At first.val step.val (count first last step) 0 (ofBounds first last step) where
  le := Nat.zero_le _
  step_eq := rfl
  remaining_eq := rfl
  current_eq := by simp [ofBounds, item]

/-! ### One element -/

theorem next_of_succ {left : Nat} (h : p.remaining = left + 1) :
    p.next = (some p.current, ⟨if left = 0 then p.current else p.current + p.step, p.step, left⟩) := by
  rw [next, h]

theorem next_of_zero (h : p.remaining = 0) : p.next = (none, p) := by
  rw [next, h]

/-- The addition of a step is exact as long as there is an element to move to. -/
theorem At.fits_add (h : At first step n j p) (hs : Spans w first step n) (hp : 1 < p.remaining) :
    w.Fits (p.current.val + p.step.val) := by
  have hr := h.remaining_eq
  have hj : min j (n - 1) = j := by omega
  rw [h.current_eq, h.step_eq, hj, ← item_succ]
  exact hs (j + 1) (by omega)

theorem At.next_some (h : At first step n j p) (hs : Spans w first step n) (hj : j < n) :
    ∃ x q, p.next = (some x, q) ∧ x.val = item first step j ∧ At first step n (j + 1) q := by
  have hr := h.remaining_eq
  have hmin : min j (n - 1) = j := by omega
  have hx : p.current.val = item first step j := by rw [h.current_eq, hmin]
  cases hrem : p.remaining with
  | zero => omega
  | succ left =>
    refine ⟨p.current, _, next_of_succ hrem, hx, by omega, h.step_eq, by simp only; omega, ?_⟩
    by_cases hleft : left = 0
    · have hend : min (j + 1) (n - 1) = j := by omega
      simp only [hleft, ↓reduceIte]
      rw [hend, hx]
    · -- There is a further element, so the sum is one of the list's numbers.
      have hnext : min (j + 1) (n - 1) = j + 1 := by omega
      have hfits := h.fits_add hs (by omega)
      simp only [hleft, ↓reduceIte]
      rw [hnext, Word.val_add, Width.bmod_of_fits hfits, hx, h.step_eq, item_succ]

theorem At.next_none (h : At first step n j p) (hj : ¬j < n) : p.next = (none, p) := by
  have hr := h.remaining_eq
  exact next_of_zero (by omega)

/-! ### Many elements -/

section Folds
variable {α : Type} {f : α → Word w → α} {q : Progression w}

theorem fold_of_some {x : Word w} (h : p.next = (some x, q)) (m : Nat) (start : α) :
    p.fold f (m + 1) start = q.fold f m (f start x) := by
  rw [fold, h]

theorem fold_of_none (h : p.next = (none, q)) (m : Nat) (start : α) : p.fold f (m + 1) start = (start, q) := by
  rw [fold, h]

end Folds

/-- Words of the list from an index on. -/
def items (w : Width) (first step : Int) (j m : Nat) : List (Word w) :=
  (List.range' j m).map fun k => Word.wrap w (item first step k)

theorem items_succ (w : Width) (first step : Int) (j m : Nat) :
    items w first step j (m + 1) = Word.wrap w (item first step j) :: items w first step (j + 1) m := by
  unfold items
  rw [List.range'_succ, List.map_cons]

theorem vals_items (hs : Spans w first step n) {m : Nat} (hm : j + m ≤ n) :
    (items w first step j m).map Word.val = (List.range' j m).map (item first step) := by
  unfold items
  rw [List.map_map]
  apply List.map_congr_left
  intro k hk
  have hk' : k < n := by
    have := List.mem_range'_1.mp hk
    omega
  exact Word.val_wrap_of_fits (hs k hk')

/-- Going through up to `m` elements goes through the next `min m (n - j)` numbers of the list. -/
theorem At.fold_eq {α : Type} (f : α → Word w → α) (h : At first step n j p) (hs : Spans w first step n) (m : Nat)
    (start : α) : ∃ q, p.fold f m start = ((items w first step j (min m (n - j))).foldl f start, q) ∧
      At first step n (j + min m (n - j)) q := by
  induction m generalizing j p start with
  | zero =>
    rw [Nat.zero_min]
    exact ⟨p, rfl, h⟩
  | succ m ih =>
    by_cases hj : j < n
    · obtain ⟨x, q, hnext, hx, hq⟩ := h.next_some hs hj
      obtain ⟨q', hfold, hq'⟩ := ih hq (f start x)
      have hmin : min (m + 1) (n - j) = min m (n - (j + 1)) + 1 := by omega
      refine ⟨q', ?_, ?_⟩
      · rw [fold_of_some hnext, hfold, hmin, items_succ, List.foldl_cons, ← hx, Word.wrap_val]
      · rw [hmin, Nat.add_comm _ 1, ← Nat.add_assoc]
        exact hq'
    · have hmin : min (m + 1) (n - j) = 0 := by omega
      refine ⟨p, ?_, ?_⟩
      · rw [fold_of_none (h.next_none hj), hmin]
        rfl
      · rw [hmin]
        exact h

theorem At.skip (h : At first step n j p) (hs : Spans w first step n) (m : Nat) :
    At first step n (j + min m (n - j)) (p.skip m) := by
  obtain ⟨q, hfold, hq⟩ := h.fold_eq (fun _ _ => ()) hs m ()
  rw [Progression.skip, hfold]
  exact hq

/-! ### Actions -/

/-- What the reader of a list with a cursor is told, in exact integers. -/
inductive Reading where
  | number (x : Option Int)
  | numbers (xs : List Int)
  | count (n : Nat)
  | bounds (least : Nat) (greatest : Option Nat)
  | text (s : String)

def Answer.reading : Answer w → Reading
  | .word x => .number (x.map Word.val)
  | .words xs => .numbers (xs.toList.map Word.val)
  | .number n => .count n
  | .bounds least greatest => .bounds least greatest
  | .text s => .text s

/-- What an action tells about a list of length `n` whose cursor stands after `j` numbers. -/
def Action.reading (first step : Int) (n j : Nat) : Action → Reading
  | .next => .number (if j < n then some (item first step j) else none)
  | .nth m => .number (if j + m < n then some (item first step (j + m)) else none)
  | .take m => .numbers ((List.range' j (min m (n - j))).map (item first step))
  | .remaining => .count (n - j)
  | .sizeHint => .bounds (n - j) (some (n - j))
  | .detail =>
    .text (recordText "StepRange" [("current", toString (item first step (min j (n - 1)))), ("step", toString step),
      ("remaining", toString (n - j))])
  | .countRest => .count (n - j)
  | .lastOfRest => .number (if j < n then some (item first step (n - 1)) else none)
  | .collectRest => .numbers ((List.range' j (n - j)).map (item first step))

/-- How many numbers an action moves the cursor over. -/
def Action.consumes (n j : Nat) : Action → Nat
  | .next => min 1 (n - j)
  | .nth m => min (m + 1) (n - j)
  | .take m => min m (n - j)
  | .remaining => 0
  | .sizeHint => 0
  | .detail => 0
  | .countRest => 0
  | .lastOfRest => 0
  | .collectRest => 0

section Actions
variable (h : At first step n j p) (hs : Spans w first step n)
include h hs

theorem At.next : (p.next.1.map Word.val = if j < n then some (item first step j) else none) ∧
    At first step n (j + min 1 (n - j)) p.next.2 := by
  by_cases hj : j < n
  · obtain ⟨x, q, hnext, hx, hq⟩ := h.next_some hs hj
    have hmin : min 1 (n - j) = 1 := by omega
    rw [hnext, if_pos hj, hmin]
    exact ⟨congrArg some hx, hq⟩
  · have hmin : min 1 (n - j) = 0 := by omega
    rw [h.next_none hj, if_neg hj, hmin]
    exact ⟨rfl, h⟩

theorem At.nth (m : Nat) :
    ((p.nth m).1.map Word.val = if j + m < n then some (item first step (j + m)) else none) ∧
      At first step n (j + min (m + 1) (n - j)) (p.nth m).2 := by
  obtain ⟨hvalue, hq⟩ := (h.skip hs m).next hs
  rw [Progression.nth]
  by_cases hm : j + m < n
  · have hmin : min m (n - j) = m := by omega
    have hmin' : min 1 (n - (j + m)) = 1 := by omega
    have hend : min (m + 1) (n - j) = m + 1 := by omega
    rw [hmin, if_pos hm] at hvalue
    rw [hmin, hmin'] at hq
    rw [if_pos hm, hend]
    exact ⟨hvalue, hq⟩
  · have hle := h.le
    have hmin : j + min m (n - j) = n := by omega
    have hend : j + min (m + 1) (n - j) = n + min 1 (n - n) := by omega
    rw [hmin, if_neg (Nat.lt_irrefl n)] at hvalue
    rw [hmin] at hq
    rw [if_neg hm, hend]
    exact ⟨hvalue, hq⟩

theorem At.take (m : Nat) :
    (p.take m).1.toList.map Word.val = (List.range' j (min m (n - j))).map (item first step) ∧
      At first step n (j + min m (n - j)) (p.take m).2 := by
  obtain ⟨q, hfold, hq⟩ := h.fold_eq Array.push hs m #[]
  have hle := h.le
  rw [Progression.take, hfold, List.foldl_push_eq_append', Array.empty_append]
  exact ⟨vals_items hs (by omega), hq⟩

theorem At.toArray : p.toArray.toList.map Word.val = (List.range' j (n - j)).map (item first step) := by
  obtain ⟨hvalues, -⟩ := h.take hs p.remaining
  rw [h.remaining_eq, Nat.min_self] at hvalues
  rw [Progression.toArray, h.remaining_eq]
  exact hvalues

theorem At.length : p.length = n - j := by
  obtain ⟨q, hfold, -⟩ := h.fold_eq (fun n _ => n + 1) hs p.remaining 0
  have hr := h.remaining_eq
  rw [Progression.length, hfold, hr, Nat.min_self, List.foldl_add_const]
  simp [items]

theorem At.last? : p.last?.map Word.val = if j < n then some (item first step (n - 1)) else none := by
  obtain ⟨q, hfold, -⟩ := h.fold_eq (fun _ x => some x) hs p.remaining none
  have hr := h.remaining_eq
  rw [Progression.last?, hfold, hr, Nat.min_self]
  by_cases hj : j < n
  · obtain ⟨k, hk⟩ : ∃ k, n - j = k + 1 := ⟨n - j - 1, by omega⟩
    have hend : j + 1 * k = n - 1 := by omega
    rw [if_pos hj, hk, items, List.range'_concat, List.map_append, List.foldl_append, hend]
    exact congrArg some (Word.val_wrap_of_fits (hs (n - 1) (by omega)))
  · have hk : n - j = 0 := by omega
    rw [if_neg hj, hk]
    rfl

omit hs in
theorem At.detail : p.detail = recordText "StepRange" [("current", toString (item first step (min j (n - 1)))),
    ("step", toString step), ("remaining", toString (n - j))] := by
  rw [← h.current_eq, ← h.step_eq, ← h.remaining_eq]
  rfl

/-- One action on a progression is the same action on the list with the cursor. -/
theorem At.perform (action : Action) : (p.perform action).1.reading = action.reading first step n j ∧
    At first step n (j + action.consumes n j) (p.perform action).2 := by
  cases action with
  | next =>
    obtain ⟨hvalue, hq⟩ := h.next hs
    exact ⟨congrArg Reading.number hvalue, hq⟩
  | nth m =>
    obtain ⟨hvalue, hq⟩ := h.nth hs m
    exact ⟨congrArg Reading.number hvalue, hq⟩
  | take m =>
    obtain ⟨hvalues, hq⟩ := h.take hs m
    exact ⟨congrArg Reading.numbers hvalues, hq⟩
  | remaining => exact ⟨congrArg Reading.count h.remaining_eq, h⟩
  | sizeHint => exact ⟨congrArg (fun k => Reading.bounds k (some k)) h.remaining_eq, h⟩
  | detail => exact ⟨congrArg Reading.text h.detail, h⟩
  | countRest => exact ⟨congrArg Reading.count (h.length hs), h⟩
  | lastOfRest => exact ⟨congrArg Reading.number (h.last? hs), h⟩
  | collectRest => exact ⟨congrArg Reading.numbers (h.toArray hs), h⟩

end Actions

/-! ### Runs -/

/-- What is left after a list of actions. -/
def after (p : Progression w) (actions : List Action) : Progression w :=
  actions.foldl (fun q action => (q.perform action).2) p

/-- Where a cursor that stands after `j` of `n` numbers gets to by a list of actions. -/
def position (n j : Nat) (actions : List Action) : Nat :=
  actions.foldl (fun k action => k + action.consumes n k) j

theorem le_position (n j : Nat) (actions : List Action) : j ≤ position n j actions := by
  induction actions generalizing j with
  | nil => exact Nat.le_refl j
  | cons action rest ih => exact Nat.le_trans (Nat.le_add_right j _) (ih (j + action.consumes n j))

/-- What a list of actions tells, each time with the number of elements left behind the cursor. -/
def readings (first step : Int) (n j : Nat) : List Action → List (Reading × Nat)
  | [] => []
  | action :: rest =>
    let k := j + action.consumes n j
    (action.reading first step n j, n - k) :: readings first step n k rest

section Runs
variable (h : At first step n j p) (hs : Spans w first step n)
include h hs

theorem At.after (actions : List Action) : At first step n (position n j actions) (p.after actions) := by
  induction actions generalizing j p with
  | nil => exact h
  | cons action rest ih => exact ih (h.perform hs action).2

theorem At.performAll (actions : List Action) :
    (p.performAll actions).map (fun told => (told.1.reading, told.2)) = readings first step n j actions := by
  induction actions generalizing j p with
  | nil => rfl
  | cons action rest ih =>
    obtain ⟨hreading, hq⟩ := h.perform hs action
    rw [Progression.performAll, List.map_cons, ih hq, hreading, hq.remaining_eq]
    rfl

theorem At.next_none_forever (hnone : p.next.1 = none) (more : List Action) : (p.after more).next.1 = none := by
  have hle : n ≤ j := by
    refine Nat.le_of_not_lt fun hj => ?_
    obtain ⟨x, q, hnext, -⟩ := h.next_some hs hj
    rw [hnext] at hnone
    cases hnone
  have hend := (h.after hs more).le
  have hstart := le_position n j more
  rw [(h.after hs more).next_none (by omega)]

end Runs

/-- A progression from bounds is the list of its numbers with a cursor, through every run of actions. The
    states `next` is called in during an action are `p.skip i`; the addition of a step is exact in each. -/
theorem ofBounds_refines_cursor (lower upper step : Word w) (hstep : 1 ≤ step.val) (actions : List Action) :
    let start := ofBounds lower upper step
    let n := start.remaining
    let j := position n 0 actions
    let p := start.after actions
    (start.performAll actions).map (fun told => (told.1.reading, told.2)) =
        readings lower.val step.val n 0 actions ∧
      p.remaining = n - j ∧ p.step = step ∧ p.current.val = item lower.val step.val (min j (n - 1)) ∧
      (∀ action, (p.perform action).1.reading = action.reading lower.val step.val n j) ∧
      (∀ i, 1 < (p.skip i).remaining → w.Fits ((p.skip i).current.val + (p.skip i).step.val)) ∧
      (p.next.1 = none → ∀ more, (p.after more).next.1 = none) := by
  intro start n j p
  have hs : Spans w lower.val step.val n := spans_count hstep
  have hstart : At lower.val step.val n 0 start := at_ofBounds lower upper step
  have hp : At lower.val step.val n j p := hstart.after hs actions
  refine ⟨hstart.performAll hs actions, hp.remaining_eq, Word.ext_val hp.step_eq, hp.current_eq, ?_, ?_, ?_⟩
  · exact fun action => (hp.perform hs action).1
  · exact fun i => (hp.skip hs i).fits_add hs
  · exact hp.next_none_forever hs

/-- Up to the greatest word: the step past 127 is never taken. -/
theorem ofBounds_refines_cursor_at_greatest :
    let lower := Word.wrap .w8 100
    let upper := Word.wrap .w8 127
    let step := Word.wrap .w8 9
    1 ≤ step.val ∧
      ((ofBounds lower upper step).performAll [.take 2, .nth 1, .next]).map (fun told => (told.1.reading, told.2)) =
        [(.numbers [100, 109], 2), (.number (some 127), 0), (.number none, 0)] := by
  intro lower upper step
  have hstep : 1 ≤ step.val := by decide
  exact ⟨hstep, (ofBounds_refines_cursor lower upper step hstep [.take 2, .nth 1, .next]).1⟩

end TypedArrays.Progression
