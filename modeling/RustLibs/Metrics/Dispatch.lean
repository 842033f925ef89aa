import RustLibs.Metrics.Bindings

/-!
# Deferred calls under any interleaving

`get_cert` and `verify_signature` call nonblocking symbols. The native side
runs such a call on a thread of its own, writes the framed result where the
pointer it returns points, and returns; the promise then resolves, and its
`readPointer` reaction copies the bytes out later, on the script's thread.
Between a native return and that copy, other native calls may return and
write. The runtime below holds native memory and the phase of each issued
call; its steps are native returns and the two reactions, in any order.
When each result has a region of its own, a call settles with its own
result, and it does settle once its three events have occurred in order.
The requests of the two wrappers are built from what `Library.call` hands
back for their symbols and from the reactions the wrappers chain, so a
`verify_signature` call settles with exactly the text its native function
encoded, and a `get_cert` call with that text parsed.
-/

namespace RustLibs.Metrics

open Buffers

/-! ### Native memory -/

/-- Native memory: a byte at every address below `size`. -/
structure Memory where
  byteAt : Nat → Byte
  size : Nat

namespace Memory

/-- The `n` bytes from address `p` on. -/
def window (m : Memory) : Nat → Nat → List Byte
  | _, 0 => []
  | p, n + 1 => m.byteAt p :: m.window (p + 1) n

/-- What a pointer to `p` lets `readPointer` read: the bytes up to the end. -/
def view (m : Memory) (p : Nat) : UnsafePointerView := ⟨m.window p (m.size - p)⟩

/-- The native side writes `bytes` from address `q` on. -/
def write (m : Memory) (q : Nat) (bytes : List Byte) : Memory :=
  ⟨fun a => if q ≤ a ∧ a < q + bytes.length then bytes.getD (a - q) 0 else m.byteAt a, m.size⟩

@[simp] theorem size_write (m : Memory) (q : Nat) (bytes : List Byte) :
    (m.write q bytes).size = m.size := rfl

@[simp] theorem length_window (m : Memory) (p n : Nat) : (m.window p n).length = n := by
  induction n generalizing p with
  | zero => rfl
  | succ n ih => simp [window, ih]

theorem getElem_window (m : Memory) (p n k : Nat) (hk : k < (m.window p n).length) :
    (m.window p n)[k] = m.byteAt (p + k) := by
  induction n generalizing p k with
  | zero => simp at hk
  | succ n ih =>
    cases k with
    | zero => rfl
    | succ k =>
      simp only [window, List.getElem_cons_succ]
      rw [ih]
      congr 1
      omega

theorem window_add (m : Memory) (p n k : Nat) :
    m.window p (n + k) = m.window p n ++ m.window (p + n) k := by
  induction n generalizing p with
  | zero => simp [window]
  | succ n ih =>
    rw [Nat.add_right_comm, window, window, ih, List.cons_append, Nat.add_right_comm p 1 n,
      Nat.add_assoc]

theorem window_write_self (m : Memory) (q : Nat) (bytes : List Byte) :
    (m.write q bytes).window q bytes.length = bytes := by
  apply List.ext_getElem (by simp)
  intro k hk _
  rw [getElem_window]
  simp only [write]
  simp at hk
  rw [if_pos (by omega), Nat.add_sub_cancel_left]
  simp [hk]

theorem window_write_of_disjoint (m : Memory) (q p n : Nat) (bytes : List Byte)
    (h : p + n ≤ q ∨ q + bytes.length ≤ p) : (m.write q bytes).window p n = m.window p n := by
  apply List.ext_getElem (by simp)
  intro k hk _
  rw [getElem_window, getElem_window]
  simp only [write]
  simp at hk
  rw [if_neg (by omega)]

end Memory

/-- What the native side writes for a result: the header, then the payload. -/
def frame (payload : List Byte) : List Byte := toUint32BE payload.length ++ payload

theorem readPointer_view {m : Memory} {p : Nat} {payload : List Byte}
    (hFits : p + (frame payload).length ≤ m.size) (hLength : payload.length < 2 ^ 32)
    (hWindow : m.window p (frame payload).length = frame payload) :
    readPointer (m.view p) = some payload := by
  have hSplit : m.size - p = (frame payload).length + (m.size - p - (frame payload).length) := by
    omega
  rw [Memory.view, hSplit, Memory.window_add, hWindow, frame]
  exact readPointer_toUint32BE payload _ hLength

/-! ### The runtime -/

/-- An issued deferred call: the reaction chained after `readPointer`, the
payload its native function computes, and the address the native side
writes that payload at. -/
structure Request (α : Type) where
  decodeResult : List Byte → Option α
  payload : List Byte
  address : Nat

/-- Where a deferred call stands. -/
inductive Phase (α : Type) where
  | running
  | returned (pointer : Nat)
  | copied (result : Option (List Byte))
  | settled (result : Option α)
  deriving DecidableEq, Repr

/-- How far a call has come: each of its events moves it one stage on. -/
def Phase.stage {α : Type} : Phase α → Nat
  | .running => 0
  | .returned _ => 1
  | .copied _ => 2
  | .settled _ => 3

theorem Phase.stage_eq_three {α : Type} {p : Phase α} : p.stage = 3 ↔ ∃ r, p = .settled r := by
  cases p <;> simp [Phase.stage]

theorem Phase.stage_le_three {α : Type} (p : Phase α) : p.stage ≤ 3 := by
  cases p <;> simp [Phase.stage]

structure Pending (α : Type) where
  request : Request α
  phase : Phase α

structure Runtime (α : Type) where
  memory : Memory
  calls : List (Pending α)

/-- A native return, or one of the two reactions each deferred wrapper chains. -/
inductive Event where
  | nativeReturn (i : Nat)
  | readPointerReaction (i : Nat)
  | decodeReaction (i : Nat)
  deriving DecidableEq, Repr

def Event.call : Event → Nat
  | .nativeReturn i | .readPointerReaction i | .decodeReaction i => i

/-- The events of call `j`, in the order its wrapper chains them. -/
def Event.ofCall (j : Nat) : List Event := [.nativeReturn j, .readPointerReaction j, .decodeReaction j]

theorem Event.call_of_getElem?_ofCall {j k : Nat} {e : Event} (h : (Event.ofCall j)[k]? = some e) :
    e.call = j := by
  have hMem : e ∈ Event.ofCall j := List.getElem?_mem h
  simp only [Event.ofCall, List.mem_cons, List.mem_singleton, List.not_mem_nil, or_false] at hMem
  rcases hMem with rfl | rfl | rfl <;> rfl

namespace Runtime

variable {α : Type}

/-- Call `i` moves on, if the event applies to its phase. -/
def step (rt : Runtime α) : Event → Runtime α
  | .nativeReturn i =>
    match rt.calls[i]? with
    | some c =>
      match c.phase with
      | .running => ⟨rt.memory.write c.request.address (frame c.request.payload),
          rt.calls.set i { c with phase := .returned c.request.address }⟩
      | _ => rt
    | none => rt
  | .readPointerReaction i =>
    match rt.calls[i]? with
    | some c =>
      match c.phase with
      | .returned p =>
        { rt with calls := rt.calls.set i { c with phase := .copied (readPointer (rt.memory.view p)) } }
      | _ => rt
    | none => rt
  | .decodeReaction i =>
    match rt.calls[i]? with
    | some c =>
      match c.phase with
      | .copied r =>
        { rt with calls := rt.calls.set i { c with phase := .settled (r.bind c.request.decodeResult) } }
      | _ => rt
    | none => rt

def run (rt : Runtime α) : List Event → Runtime α
  | [] => rt
  | event :: events => (rt.step event).run events

theorem step_cases (rt : Runtime α) (event : Event) :
    rt.step event = rt ∨ ∃ i c, rt.calls[i]? = some c ∧
      ((c.phase = .running ∧ rt.step event = ⟨rt.memory.write c.request.address (frame c.request.payload),
          rt.calls.set i { c with phase := .returned c.request.address }⟩) ∨
        (∃ p, c.phase = .returned p ∧ rt.step event = { rt with
          calls := rt.calls.set i { c with phase := .copied (readPointer (rt.memory.view p)) } }) ∨
        (∃ r, c.phase = .copied r ∧ rt.step event = { rt with
          calls := rt.calls.set i { c with phase := .settled (r.bind c.request.decodeResult) } })) := by
  cases event with
  | nativeReturn i =>
    simp only [step]
    split
    · rename_i c hc
      split
      · exact .inr ⟨i, c, hc, .inl ⟨‹_›, rfl⟩⟩
      · exact .inl rfl
    · exact .inl rfl
  | readPointerReaction i =>
    simp only [step]
    split
    · rename_i c hc
      split
      · exact .inr ⟨i, c, hc, .inr (.inl ⟨_, ‹_›, rfl⟩)⟩
      · exact .inl rfl
    · exact .inl rfl
  | decodeReaction i =>
    simp only [step]
    split
    · rename_i c hc
      split
      · exact .inr ⟨i, c, hc, .inr (.inr ⟨_, ‹_›, rfl⟩)⟩
      · exact .inl rfl
    · exact .inl rfl

theorem getElem?_step_of_ne (rt : Runtime α) (event : Event) {j : Nat} (h : event.call ≠ j) :
    (rt.step event).calls[j]? = rt.calls[j]? := by
  cases event <;> simp only [step, Event.call] at h ⊢ <;> split <;> (try split) <;>
    simp [List.getElem?_set, h]

end Runtime

/-! ### What holds over every schedule -/

theorem getElem?_set_of_getElem? {β : Type} {l : List β} {i j : Nat} {a c : β}
    (h : l[i]? = some c) : (l.set i a)[j]? = if i = j then some a else l[j]? := by
  have hi : i < l.length := (List.getElem?_eq_some_iff.mp h).1
  simp [List.getElem?_set, hi]

theorem map_set_of_getElem? {β γ : Type} {l : List β} {f : β → γ} {i : Nat} {a c : β}
    (h : l[i]? = some c) (hf : f a = f c) : (l.set i a).map f = l.map f := by
  apply List.ext_getElem?
  intro j
  rw [List.getElem?_map, List.getElem?_map, getElem?_set_of_getElem? h]
  split <;> simp_all

variable {α : Type}

/-- The native side frames each payload in memory, in a region of its own:
it allocates a result per call. -/
def Request.Separated (size : Nat) (requests : List (Request α)) : Prop :=
  (∀ r ∈ requests, r.address + (frame r.payload).length ≤ size ∧ r.payload.length < 2 ^ 32) ∧
  requests.Pairwise fun r s =>
    r.address + (frame r.payload).length ≤ s.address ∨ s.address + (frame s.payload).length ≤ r.address

instance (size : Nat) (requests : List (Request α)) :
    Decidable (Request.Separated size requests) :=
  inferInstanceAs (Decidable (_ ∧ _))

/-- What a call's phase says of the memory. -/
def Pending.Sound (memory : Memory) (c : Pending α) : Prop :=
  match c.phase with
  | .running => True
  | .returned p => p = c.request.address ∧
      memory.window p (frame c.request.payload).length = frame c.request.payload
  | .copied r => r = some c.request.payload
  | .settled r => r = c.request.decodeResult c.request.payload

theorem Request.Separated.disjoint {size i j : Nat} {requests : List (Request α)}
    {r s : Request α} (h : Request.Separated size requests) (hij : i ≠ j)
    (hr : requests[i]? = some r) (hs : requests[j]? = some s) :
    r.address + (frame r.payload).length ≤ s.address ∨
      s.address + (frame s.payload).length ≤ r.address := by
  obtain ⟨hi, rfl⟩ := List.getElem?_eq_some_iff.mp hr
  obtain ⟨hj, rfl⟩ := List.getElem?_eq_some_iff.mp hs
  rcases Nat.lt_or_gt_of_ne hij with hlt | hgt
  · exact List.pairwise_iff_getElem.mp h.2 i j hi hj hlt
  · exact (List.pairwise_iff_getElem.mp h.2 j i hj hi hgt).symm

theorem Pending.Sound.write {m : Memory} {c : Pending α} (h : c.Sound m) (q : Nat)
    (bytes : List Byte) (hDisjoint : c.request.address + (frame c.request.payload).length ≤ q ∨
      q + bytes.length ≤ c.request.address) : c.Sound (m.write q bytes) := by
  unfold Pending.Sound at h ⊢
  split at h
  · trivial
  · obtain ⟨rfl, hWindow⟩ := h
    exact ⟨rfl, (Memory.window_write_of_disjoint _ _ _ _ _ hDisjoint).trans hWindow⟩
  · exact h
  · exact h

namespace Runtime

def Separated (rt : Runtime α) : Prop := Request.Separated rt.memory.size (rt.calls.map Pending.request)

def Sound (rt : Runtime α) : Prop := ∀ (j : Nat) (c : Pending α), rt.calls[j]? = some c → c.Sound rt.memory

def SameRequests (rt rt' : Runtime α) : Prop :=
  rt'.memory.size = rt.memory.size ∧ rt'.calls.map Pending.request = rt.calls.map Pending.request

theorem sameRequests_step (rt : Runtime α) (event : Event) : SameRequests rt (rt.step event) := by
  rcases step_cases rt event with h | ⟨i, c, hc, ⟨-, h⟩ | ⟨p, -, h⟩ | ⟨r, -, h⟩⟩ <;> rw [h]
  · exact ⟨rfl, rfl⟩
  all_goals exact ⟨rfl, map_set_of_getElem? hc rfl⟩

theorem Separated.of_sameRequests {rt rt' : Runtime α} (h : rt.Separated)
    (hSame : SameRequests rt rt') : rt'.Separated := by
  rw [Separated, hSame.1, hSame.2]
  exact h

theorem sound_step {rt : Runtime α} (hSep : rt.Separated) (h : rt.Sound) (event : Event) :
    (rt.step event).Sound := by
  rcases step_cases rt event with hStep | ⟨i, c, hc, ⟨hPhase, hStep⟩ | ⟨p, hPhase, hStep⟩ |
    ⟨r, hPhase, hStep⟩⟩ <;> rw [hStep]
  · exact h
  · intro j d hd
    rw [getElem?_set_of_getElem? hc] at hd
    split at hd
    · cases hd
      exact ⟨rfl, Memory.window_write_self _ _ _⟩
    · have hRequests : (rt.calls.map Pending.request)[i]? = some c.request := by simp [hc]
      have hOther : (rt.calls.map Pending.request)[j]? = some d.request := by simp [hd]
      exact (h j d hd).write _ _ (hSep.disjoint (Ne.symm ‹i ≠ j›) hOther hRequests)
  · intro j d hd
    rw [getElem?_set_of_getElem? hc] at hd
    split at hd
    · cases hd
      have hc' := h i c hc
      simp only [Pending.Sound, hPhase] at hc'
      obtain ⟨rfl, hWindow⟩ := hc'
      have hFits := hSep.1 _ (List.mem_map_of_mem Pending.request (List.getElem?_mem hc))
      exact readPointer_view hFits.1 hFits.2 hWindow
    · exact h j d hd
  · intro j d hd
    rw [getElem?_set_of_getElem? hc] at hd
    split at hd
    · cases hd
      have hc' := h i c hc
      simp only [Pending.Sound, hPhase] at hc'
      simp [Pending.Sound, hc']
    · exact h j d hd

theorem run_sound {rt : Runtime α} (hSep : rt.Separated) (h : rt.Sound) (events : List Event) :
    SameRequests rt (rt.run events) ∧ (rt.run events).Sound := by
  induction events generalizing rt with
  | nil => exact ⟨⟨rfl, rfl⟩, h⟩
  | cons event events ih =>
    have hSame := sameRequests_step rt event
    obtain ⟨hSame', hSound⟩ := ih (hSep.of_sameRequests hSame) (sound_step hSep h event)
    exact ⟨⟨hSame'.1.trans hSame.1, hSame'.2.trans hSame.2⟩, hSound⟩

theorem stage_step (rt : Runtime α) (event : Event) (j : Nat) :
    (rt.step event).calls[j]?.map (·.phase.stage) = rt.calls[j]?.map fun c =>
      c.phase.stage + if (Event.ofCall j)[c.phase.stage]? = some event then 1 else 0 := by
  by_cases h : event.call = j
  · subst h
    cases event with
    | nativeReturn i | readPointerReaction i | decodeReaction i =>
      rcases hc : rt.calls[i]? with _ | c
      · simp [step, Event.call, hc]
      · rcases hp : c.phase <;>
          simp [step, Event.call, hc, hp, Phase.stage, Event.ofCall, getElem?_set_of_getElem? hc]
  · rw [getElem?_step_of_ne rt event h]
    rcases rt.calls[j]? with _ | c
    · rfl
    · have hNot : (Event.ofCall j)[c.phase.stage]? ≠ some event :=
        fun hEq => h (Event.call_of_getElem?_ofCall hEq)
      simp [hNot]

theorem stage_run (rt : Runtime α) (events : List Event) {j k : Nat} {c : Pending α}
    (hc : rt.calls[j]? = some c) (hk : k ≤ c.phase.stage)
    (hOrder : ((Event.ofCall j).drop k).Sublist events) :
    (rt.run events).calls[j]?.map (·.phase.stage) = some 3 := by
  induction events generalizing rt k c with
  | nil =>
    have hDone : 3 ≤ k := by simpa [Event.ofCall] using List.sublist_nil.mp hOrder
    simp only [run, hc, Option.map_some', Option.some.injEq]
    have := c.phase.stage_le_three
    omega
  | cons event events ih =>
    have hStep := stage_step rt event j
    rw [hc, Option.map_some'] at hStep
    obtain ⟨c', hc', hStage⟩ := Option.map_eq_some'.mp hStep
    rw [run]
    rcases List.sublist_cons_iff.mp hOrder with hSub | ⟨r, hr, hSub⟩
    · exact ih _ hc' (by omega) hSub
    · have hNext : (Event.ofCall j)[k]? = some event := by simpa using congrArg List.head? hr
      have hRest : r = (Event.ofCall j).drop (k + 1) := by
        rw [← List.tail_drop, hr, List.tail_cons]
      refine ih _ hc' ?_ (hRest ▸ hSub)
      rcases Nat.eq_or_lt_of_le hk with rfl | hlt
      · simp only [hNext, if_true] at hStage
        omega
      · omega

/-- The runtime once the wrappers have issued `requests`, none returned yet. -/
def issue (memory : Memory) (requests : List (Request α)) : Runtime α :=
  ⟨memory, requests.map fun q => ⟨q, .running⟩⟩

theorem issue_calls_request (memory : Memory) (requests : List (Request α)) :
    (issue memory requests).calls.map Pending.request = requests := by
  simp [issue, Function.comp_def]

theorem getElem?_run_issue {memory : Memory} {requests : List (Request α)}
    (hSep : Request.Separated memory.size requests) (events : List Event) {j : Nat} {c : Pending α}
    (hc : ((issue memory requests).run events).calls[j]? = some c) :
    requests[j]? = some c.request ∧ c.Sound ((issue memory requests).run events).memory := by
  have hSep' : (issue memory requests).Separated := by
    rw [Separated, issue_calls_request]
    exact hSep
  have hStart : (issue memory requests).Sound := by
    intro i c hc
    simp only [issue, List.getElem?_map, Option.map_eq_some'] at hc
    obtain ⟨q', -, rfl⟩ := hc
    trivial
  obtain ⟨⟨-, hRequests⟩, hSound⟩ := run_sound hSep' hStart events
  refine ⟨?_, hSound j c hc⟩
  rw [← issue_calls_request memory requests, ← hRequests, List.getElem?_map, hc, Option.map_some']

theorem phase_run_issue {memory : Memory} {requests : List (Request α)}
    (hSep : Request.Separated memory.size requests) (events : List Event) {j : Nat} {q : Request α}
    (hq : requests[j]? = some q) (hOrder : (Event.ofCall j).Sublist events) :
    ((issue memory requests).run events).calls[j]?.map Pending.phase =
      some (.settled (q.decodeResult q.payload)) := by
  have hStart : (issue memory requests).calls[j]? = some ⟨q, .running⟩ := by simp [issue, hq]
  obtain ⟨c, hc, hStage⟩ := Option.map_eq_some'.mp (stage_run _ events hStart (Nat.le_refl 0) hOrder)
  obtain ⟨r, hr⟩ := Phase.stage_eq_three.mp hStage
  obtain ⟨hRequest, hSound⟩ := getElem?_run_issue hSep events hc
  rw [hq, Option.some.injEq] at hRequest
  simp only [Pending.Sound, hr] at hSound
  rw [hc, Option.map_some', hr, hSound, hRequest]

end Runtime

open Runtime

/-- When the native side gives every result a region of its own, each
deferred call settles with its reaction to its own payload, whatever the
order of native returns and reactions. -/
theorem run_settles_own_result (memory : Memory) (requests : List (Request α))
    (hSep : Request.Separated memory.size requests) (events : List Event) (j : Nat)
    (q : Request α) (hq : requests[j]? = some q) (r : Option α)
    (hSettled : ((issue memory requests).run events).calls[j]?.map Pending.phase = some (.settled r)) :
    r = q.decodeResult q.payload := by
  obtain ⟨c, hc, hPhase⟩ := Option.map_eq_some'.mp hSettled
  obtain ⟨hRequest, hSound⟩ := getElem?_run_issue hSep events hc
  rw [hq, Option.some.injEq] at hRequest
  simp only [Pending.Sound, hPhase] at hSound
  rw [hSound, hRequest]

def twoVerifications (address : Nat) : List (Request String) :=
  [⟨verifySignatureThen, [0x61], 0⟩, ⟨verifySignatureThen, [0x62], address⟩]

theorem run_settles_own_result_reversed :
    Request.Separated 10 (twoVerifications 5) ∧
    (twoVerifications 5)[1]? = some ⟨verifySignatureThen, [0x62], 5⟩ ∧
    ((issue ⟨fun _ => 0, 10⟩ (twoVerifications 5)).run
      [.nativeReturn 1, .nativeReturn 0, .readPointerReaction 1, .decodeReaction 1]).calls[1]?.map
        Pending.phase = some (.settled (some "b")) ∧
    some "b" = verifySignatureThen [0x62] :=
  ⟨by decide, rfl, by decide, run_settles_own_result ⟨fun _ => 0, 10⟩ (twoVerifications 5)
    (by decide) [.nativeReturn 1, .nativeReturn 0, .readPointerReaction 1, .decodeReaction 1] 1 _ rfl
    _ (by decide)⟩

/-- When the native side gives every result a region of its own, every call
whose native return, `readPointer` reaction and decode reaction occur in the
schedule in this order settles, with its reaction to its own payload. -/
theorem run_settles (memory : Memory) (requests : List (Request α))
    (hSep : Request.Separated memory.size requests) (events : List Event) (j : Nat)
    (q : Request α) (hq : requests[j]? = some q) (hOrder : (Event.ofCall j).Sublist events) :
    ((issue memory requests).run events).calls[j]?.map Pending.phase =
      some (.settled (q.decodeResult q.payload)) :=
  phase_run_issue hSep events hq hOrder

theorem run_settles_interleaved :
    Request.Separated 10 (twoVerifications 5) ∧
    (twoVerifications 5)[0]? = some ⟨verifySignatureThen, [0x61], 0⟩ ∧
    (Event.ofCall 0).Sublist [.nativeReturn 1, .nativeReturn 0, .readPointerReaction 1,
      .readPointerReaction 0, .decodeReaction 1, .decodeReaction 0] ∧
    ((issue ⟨fun _ => 0, 10⟩ (twoVerifications 5)).run [.nativeReturn 1, .nativeReturn 0,
      .readPointerReaction 1, .readPointerReaction 0, .decodeReaction 1, .decodeReaction 0]).calls[0]?.map
        Pending.phase = some (.settled (verifySignatureThen [0x61])) :=
  ⟨by decide, rfl, by decide, run_settles ⟨fun _ => 0, 10⟩ (twoVerifications 5) (by decide) _ 0 _ rfl
    (by decide)⟩

/-! ### The deferred wrappers -/

/-- A call of `get_cert` or `verify_signature`, the wrappers whose symbols
are nonblocking. -/
inductive DeferredCall where
  | getCert (a0 : String) (a1 : UInt32) (a2 : UInt8)
  | verifySignature (a0 : String) (a1 a2 : List Byte)

def DeferredCall.toExport : DeferredCall → Export
  | .getCert a0 a1 a2 => .getCert a0 a1 a2
  | .verifySignature a0 a1 a2 => .verifySignature a0 a1 a2

/-- What a deferred wrapper's promise settles with: the certificate
`get_cert` parses, or the text `verify_signature` decodes. -/
inductive Resolution (Json : Type) where
  | cert (value : Json)
  | text (value : String)

section Wrappers

variable {Number Json : Type} (lib : Library Number) (parse : String → Option Json)

/-- The reaction the wrapper chains after `rawResult.then(readPointer)`. -/
def DeferredCall.reaction : DeferredCall → List Byte → Option (Resolution Json)
  | .getCert .. => fun r => (getCertThen parse r).map .cert
  | .verifySignature .. => fun r => (verifySignatureThen r).map .text

/-- The request a deferred wrapper issues: Deno hands back a promise, with
the payload the native function computes and the address it frames it at,
and the wrapper chains its reaction. -/
def DeferredCall.request (d : DeferredCall) : Option (Request (Resolution Json)) :=
  match lib.callExport d.toExport with
  | some (.promise payload address) => some ⟨d.reaction parse, payload, address⟩
  | _ => none

/-- What the promise should settle with when the native function framed the
encoding of `text`: `JSON.parse(text)`, or `text` itself. -/
def DeferredCall.resolve (text : String) : DeferredCall → Option (Resolution Json)
  | .getCert .. => (parse text).map .cert
  | .verifySignature .. => some (.text text)

theorem DeferredCall.request_eq (d : DeferredCall) :
    d.request lib parse = some ⟨d.reaction parse, (lib.deferred d.toExport.nativeCall).1,
      (lib.deferred d.toExport.nativeCall).2⟩ := by
  cases d <;> rfl

theorem DeferredCall.reaction_encode (d : DeferredCall) {text : String}
    (hBOM : text.data.head? ≠ some '\uFEFF') :
    d.reaction parse (encode (.string text)) = d.resolve parse text := by
  cases d <;> simp [reaction, resolve, getCertThen, verifySignatureThen, decode_encode_string, hBOM]

/-- A `get_cert` or `verify_signature` call whose native function frames the
UTF-8 encoding of `text`, in a region of its own, settles under every
schedule in which its three events occur in order: `get_cert` with
`JSON.parse(text)`, `verify_signature` with `text` itself. -/
theorem request_settles_with_text (memory : Memory) (requests : List (Request (Resolution Json)))
    (hSep : Request.Separated memory.size requests) (events : List Event) (j : Nat)
    (d : DeferredCall) (hq : requests[j]? = d.request lib parse) (text : String)
    (hNative : (lib.deferred d.toExport.nativeCall).1 = encode (.string text))
    (hBOM : text.data.head? ≠ some '\uFEFF') (hOrder : (Event.ofCall j).Sublist events) :
    ((issue memory requests).run events).calls[j]?.map Pending.phase =
      some (.settled (d.resolve parse text)) := by
  rw [phase_run_issue hSep events (hq.trans (d.request_eq lib parse)) hOrder]
  simp only [hNative, d.reaction_encode parse hBOM]

end Wrappers

def deferredLibrary : Library Nat :=
  ⟨fun _ => 0, fun _ => ⟨[]⟩, fun call => if call.1 = "get_cert" then (encode (.string "{}"), 0)
    else (encode (.string "ok"), 8)⟩

theorem request_settles_with_text_interleaved :
    let cert := DeferredCall.getCert "host" 443 1
    let verify := DeferredCall.verifySignature "ok" [1] [2]
    let requests := [cert.request deferredLibrary some, verify.request deferredLibrary some].filterMap id
    (Request.Separated 16 requests ∧ requests[0]? = cert.request deferredLibrary some ∧
      (deferredLibrary.deferred cert.toExport.nativeCall).1 = encode (.string "{}") ∧
      ("{}" : String).data.head? ≠ some '\uFEFF' ∧
      (Event.ofCall 0).Sublist [.nativeReturn 1, .nativeReturn 0, .readPointerReaction 1,
        .readPointerReaction 0, .decodeReaction 1, .decodeReaction 0]) ∧
    ((issue ⟨fun _ => 0, 16⟩ requests).run [.nativeReturn 1, .nativeReturn 0, .readPointerReaction 1,
        .readPointerReaction 0, .decodeReaction 1, .decodeReaction 0]).calls[0]?.map Pending.phase =
      some (.settled (cert.resolve some "{}")) :=
  ⟨⟨by decide, rfl, rfl, by decide, by decide⟩, request_settles_with_text deferredLibrary some
    ⟨fun _ => 0, 16⟩ _ (by decide) _ 0 _ rfl "{}" rfl (by decide) (by decide)⟩

end RustLibs.Metrics
