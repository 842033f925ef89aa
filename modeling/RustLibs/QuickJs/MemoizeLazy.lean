import Mathlib.Data.List.Range

/-!
# `memoizeLazy`

`memoizeLazy(f)` returns a closure over one variable, `v_`, which starts as
`null`; a call invokes `f` while `v_` is `null`, assigns what `f` returns,
and returns `v_`. The sentinel is also a value `f` may return, so an `f`
whose result is `null` is invoked again by the next call, and so is one that
throws. The assignment comes only after `f` returns: an `f` that calls the
closure while it runs finds `v_` still `null` and is invoked again from
inside, and the outer assignment overwrites what the inner one stored.

An invocation of `f` is what the closure can observe of it: it completes, or
it calls the closure and goes on with how that call completed. The `i`-th
invocation may differ from the others, so `f` may keep state of its own. A
call with no room left on the stack completes with a `RangeError`.
-/

namespace RustLibs.QuickJs

/-- A JavaScript value as `=== null` tells them apart: `null`, or any other. -/
inductive JsValue (α : Type) where
  | null
  | other (value : α)
  deriving DecidableEq, Repr

/-- How a call completes: with a value, by throwing one, or with the
`RangeError` of a call past the stack limit. -/
inductive Completion (ε α : Type) where
  | normal (value : JsValue α)
  | throw (value : ε)
  | rangeError
  deriving DecidableEq, Repr

/-- An invocation of `f`: it completes, or it calls the closure and goes on
with that call's completion. -/
inductive Callback (ε α : Type) where
  | complete (c : Completion ε α)
  | callClosure (k : Completion ε α → Callback ε α)

variable {ε α : Type}

/-- The closure `memoizeLazy` returns: its `f`, its variable `v_`, and the
number of invocations of `f` so far. -/
structure Memoized (ε α : Type) where
  f : Nat → Callback ε α
  v_ : JsValue α
  invocations : Nat

def memoizeLazy (f : Nat → Callback ε α) : Memoized ε α := ⟨f, .null, 0⟩

/-- An invocation of `f` run to its end, each call it makes of the closure
answered by `call`. -/
def Callback.run (call : Memoized ε α → Completion ε α × Memoized ε α) :
    Callback ε α → Memoized ε α → Completion ε α × Memoized ε α
  | .complete c, g => (c, g)
  | .callClosure k, g => (k (call g).1).run call (call g).2

/-- `v_ = f()`: the value of a normal completion is assigned; a throw skips
the assignment. -/
def Memoized.store (g : Memoized ε α) : Completion ε α → Memoized ε α
  | .normal v => { g with v_ := v }
  | _ => g

/-- One call of the closure, with room for `depth` calls on the stack:
`if (v_ === null) { v_ = f(); } return v_;`. After a normal completion,
`return v_` returns the value just assigned. -/
def Memoized.call : Nat → Memoized ε α → Completion ε α × Memoized ε α
  | 0, g => (.rangeError, g)
  | depth + 1, g =>
    match g.v_ with
    | .other v => (.normal (.other v), g)
    | .null =>
      let r := (g.f g.invocations).run (Memoized.call depth) { g with invocations := g.invocations + 1 }
      (r.1, r.2.store r.1)

/-- `k` calls in a row, none of them from inside `f`: how each completed, and
the closure after them. -/
def Memoized.calls (depth : Nat) (g : Memoized ε α) : Nat → List (Completion ε α) × Memoized ε α
  | 0 => ([], g)
  | k + 1 => ((g.call depth).1 :: ((g.call depth).2.calls depth k).1, ((g.call depth).2.calls depth k).2)

/-- Whether a completion of `f` leaves a value other than `null` in `v_`. -/
def Completion.caches : Completion ε α → Bool
  | .normal (.other _) => true
  | _ => false

namespace Memoized

@[simp] theorem store_f (g : Memoized ε α) (c : Completion ε α) : (g.store c).f = g.f := by
  cases c <;> rfl

@[simp] theorem store_invocations (g : Memoized ε α) (c : Completion ε α) :
    (g.store c).invocations = g.invocations := by
  cases c <;> rfl

theorem store_v_of_caches {g : Memoized ε α} {c : Completion ε α} (hc : c.caches) :
    ∃ v, c = .normal (.other v) ∧ (g.store c).v_ = .other v := by
  match c, hc with
  | .normal (.other v), _ => exact ⟨v, rfl, rfl⟩

theorem store_v_of_not_caches {g : Memoized ε α} (h : g.v_ = .null) {c : Completion ε α}
    (hc : c.caches = false) : (g.store c).v_ = .null := by
  match c, hc with
  | .normal .null, _ => rfl
  | .throw _, _ | .rangeError, _ => exact h

theorem call_of_other {g : Memoized ε α} {v : α} (h : g.v_ = .other v) (depth : Nat) :
    g.call (depth + 1) = (.normal (.other v), g) := by
  simp [call, h]

theorem call_of_complete {g : Memoized ε α} (h : g.v_ = .null) {c : Completion ε α}
    (hc : g.f g.invocations = .complete c) (depth : Nat) :
    g.call (depth + 1) = (c, { g with invocations := g.invocations + 1 }.store c) := by
  simp [call, h, hc, Callback.run]

theorem call_v_of_normal {g : Memoized ε α} {depth : Nat} {v : JsValue α}
    (h : (g.call depth).1 = .normal v) : (g.call depth).2.v_ = v := by
  cases depth with
  | zero => simp [call] at h
  | succ depth =>
    cases hv : g.v_ with
    | other w =>
      simp only [call_of_other hv, Completion.normal.injEq] at h ⊢
      exact hv.trans h
    | null =>
      simp only [call, hv] at h ⊢
      rw [h]
      rfl

theorem calls_of_other {g : Memoized ε α} {v : α} (h : g.v_ = .other v) (depth k : Nat) :
    g.calls (depth + 1) k = (List.replicate k (.normal (.other v)), g) := by
  induction k with
  | zero => rfl
  | succ k ih => simp [calls, call_of_other h, ih, List.replicate_succ]

theorem calls_of_null {g : Memoized ε α} (h : g.v_ = .null) (c : Nat → Completion ε α)
    (hf : ∀ i, g.f (g.invocations + i) = .complete (c i)) (depth m k : Nat) (hmk : m < k)
    (hLeading : ∀ i < m, (c i).caches = false) (hValue : (c m).caches) :
    (g.calls (depth + 1) k).1 = (List.range k).map (fun i => c (min i m)) ∧
      (g.calls (depth + 1) k).2.invocations = g.invocations + m + 1 := by
  induction m generalizing g c k with
  | zero =>
    obtain ⟨k, rfl⟩ : ∃ k', k = k' + 1 := ⟨k - 1, by omega⟩
    obtain ⟨v, hv, hHeld⟩ :=
      store_v_of_caches (g := { g with invocations := g.invocations + 1 }) hValue
    simp only [calls, call_of_complete h (hf 0) depth, calls_of_other hHeld, List.range_succ_eq_map]
    simp [Function.comp_def, List.map_const', hv]
  | succ m ih =>
    obtain ⟨k, rfl⟩ : ∃ k', k = k' + 1 := ⟨k - 1, by omega⟩
    have hNull := store_v_of_not_caches (g := { g with invocations := g.invocations + 1 }) h
      (hLeading 0 (by omega))
    have hNext := ih (g := _) hNull (fun i => c (i + 1))
      (fun i => by simpa [Nat.add_assoc, Nat.add_comm 1] using hf (i + 1)) k (by omega)
      (fun i hi => hLeading (i + 1) (by omega)) hValue
    simp only [calls, call_of_complete h (hf 0) depth, List.range_succ_eq_map]
    refine ⟨?_, by simpa [Nat.add_assoc, Nat.add_comm 1] using hNext.2⟩
    rw [hNext.1]
    simp only [List.map_cons, List.map_map, Nat.zero_min, List.cons.injEq, true_and, Function.comp_def]
    exact List.map_congr_left fun a _ => congrArg c (by omega)

theorem calls_of_all_null {g : Memoized ε α} (h : g.v_ = .null) (c : Nat → Completion ε α)
    (hf : ∀ i, g.f (g.invocations + i) = .complete (c i)) (depth k : Nat)
    (hNull : ∀ i < k, (c i).caches = false) :
    (g.calls (depth + 1) k).1 = (List.range k).map c ∧
      (g.calls (depth + 1) k).2.invocations = g.invocations + k := by
  induction k generalizing g c with
  | zero => simp [calls]
  | succ k ih =>
    have hStore := store_v_of_not_caches (g := { g with invocations := g.invocations + 1 }) h
      (hNull 0 (by omega))
    have hNext := ih hStore (fun i => c (i + 1))
      (fun i => by simpa [Nat.add_assoc, Nat.add_comm 1] using hf (i + 1))
      (fun i hi => hNull (i + 1) (by omega))
    simp only [calls, call_of_complete h (hf 0) depth, List.range_succ_eq_map, hNext.1,
      List.map_cons, List.map_map, Function.comp_def, true_and]
    simpa [Nat.add_assoc, Nat.add_comm 1] using hNext.2

end Memoized

open Memoized

/-- For an `f` that does not call the closure while it runs: `f` is invoked
on every call up to and including the first whose invocation returns a value
other than `null`, and never again; each call completes as the last
invocation did. -/
theorem memoizeLazy_runs (c : Nat → Completion ε α) (depth k : Nat) :
    (∀ m < k, (∀ i < m, (c i).caches = false) → (c m).caches →
      ((memoizeLazy fun i => .complete (c i)).calls (depth + 1) k).1 =
          (List.range k).map (fun i => c (min i m)) ∧
        ((memoizeLazy fun i => .complete (c i)).calls (depth + 1) k).2.invocations = m + 1) ∧
    ((∀ i < k, (c i).caches = false) →
      ((memoizeLazy fun i => .complete (c i)).calls (depth + 1) k).1 = (List.range k).map c ∧
        ((memoizeLazy fun i => .complete (c i)).calls (depth + 1) k).2.invocations = k) := by
  refine ⟨fun m hmk hLeading hValue => ?_, fun hNull => ?_⟩
  · simpa [memoizeLazy] using calls_of_null (g := memoizeLazy fun i => .complete (c i)) rfl c
      (by simp [memoizeLazy]) depth m k hmk hLeading hValue
  · simpa [memoizeLazy] using calls_of_all_null (g := memoizeLazy fun i => .complete (c i)) rfl c
      (by simp [memoizeLazy]) depth k hNull

theorem memoizeLazy_runs_throw_first :
    let c : Nat → Completion Unit Nat := fun i => if i = 0 then .throw () else .normal (.other i)
    (1 < 3 ∧ (∀ i < 1, (c i).caches = false) ∧ (c 1).caches) ∧
      ((memoizeLazy fun i => .complete (c i)).calls 1 3).1 = (List.range 3).map (fun i => c (min i 1)) ∧
      ((memoizeLazy fun i => .complete (c i)).calls 1 3).2.invocations = 1 + 1 :=
  ⟨⟨by decide, by decide, by decide⟩,
    (memoizeLazy_runs _ 0 3).1 1 (by decide) (by decide) (by decide)⟩

/-- When `f`'s first invocation returns a value other than `null` without
calling the closure, it is the only invocation, and every call returns that
value. -/
theorem memoizeLazy_calls (f : Nat → Callback ε α) {v : α} (hFirst : f 0 = .complete (.normal (.other v)))
    (depth k : Nat) (hk : 1 ≤ k) :
    ((memoizeLazy f).calls (depth + 1) k).2.invocations = 1 ∧
      ((memoizeLazy f).calls (depth + 1) k).1 = List.replicate k (.normal (.other v)) := by
  obtain ⟨k, rfl⟩ : ∃ k', k = k' + 1 := ⟨k - 1, by omega⟩
  have hCall := call_of_complete (g := memoizeLazy f) rfl hFirst depth
  simp only [calls, hCall, calls_of_other (g := { memoizeLazy f with
    invocations := (memoizeLazy f).invocations + 1 }.store (.normal (.other v))) rfl]
  exact ⟨rfl, rfl⟩

theorem memoizeLazy_calls_three :
    (fun _ => .complete (.normal (.other 7)) : Nat → Callback Unit Nat) 0 = .complete (.normal (.other 7)) ∧
      1 ≤ 3 ∧
      ((memoizeLazy (fun _ => .complete (.normal (.other 7)) : Nat → Callback Unit Nat)).calls 1 3).2.invocations
        = 1 ∧
      ((memoizeLazy (fun _ => .complete (.normal (.other 7)) : Nat → Callback Unit Nat)).calls 1 3).1 =
        List.replicate 3 (.normal (.other 7)) :=
  ⟨rfl, by decide, memoizeLazy_calls _ rfl 0 3 (by decide)⟩

/-- An invocation that calls the closure before it returns. -/
def reentrantFirst : Nat → Callback Unit Nat
  | 0 => .callClosure fun _ => .complete (.normal (.other 2))
  | _ => .complete (.normal (.other 1))

/-- `f` is invoked again when it returns `null`, and when it calls the closure
while it runs: that inner call finds `v_` still `null`. -/
theorem memoizeLazy_reinvoked :
    ((memoizeLazy (fun _ => .complete (.normal .null) : Nat → Callback Unit Nat)).calls 1 2).2.invocations = 2 ∧
      ((memoizeLazy reentrantFirst).calls 2 1).2.invocations = 2 := by
  decide

/-- However `f` behaves, re-entrant or throwing: once a call made outside `f`
returns a value other than `null`, every later one returns it and `f` is not
invoked again. -/
theorem memoizeLazy_keeps_value (f : Nat → Callback ε α) (depth j k : Nat) {v : α}
    (hValue : (((memoizeLazy f).calls depth j).2.call depth).1 = .normal (.other v)) :
    (((memoizeLazy f).calls depth j).2.call depth).2.calls depth k =
      (List.replicate k (.normal (.other v)), (((memoizeLazy f).calls depth j).2.call depth).2) := by
  cases depth with
  | zero => simp [call] at hValue
  | succ depth => exact calls_of_other (call_v_of_normal hValue) depth k

theorem memoizeLazy_keeps_value_reentrant :
    (((memoizeLazy reentrantFirst).calls 2 0).2.call 2).1 = .normal (.other 2) ∧
      (((memoizeLazy reentrantFirst).calls 2 0).2.call 2).2.calls 2 3 =
        (List.replicate 3 (.normal (.other 2)), (((memoizeLazy reentrantFirst).calls 2 0).2.call 2).2) :=
  ⟨by decide, memoizeLazy_keeps_value _ 2 0 3 (by decide)⟩

end RustLibs.QuickJs
