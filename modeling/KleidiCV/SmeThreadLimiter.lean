/-
Sharing the SME units between threads.

Every streaming mode unit has a number of slots; `SmeThreadLimiter` keeps one
atomic counter of free slots for each domain of CPUs that share a unit.  A
call of `try_to_run_on_cpu` takes a slot with a weak compare-exchange loop,
runs the callback, and the destructor of its guard gives the slot back.

The model is a transition system over any number of threads.  A step is one
atomic access of one thread, or a part of a call that touches no shared
memory.  The accesses are relaxed, so a load, and a compare-exchange that
fails, may return any value the counter has had.

* `slots_step` — one step keeps "free slots plus callbacks = slots";
* `limiter_sound` — the same in every reachable state, with its consequences:
  no domain is oversubscribed, no counter wraps, a callback runs at most once
  for each call, and idle threads have returned every slot.
-/
import KleidiCV.Lib.Transition
import KleidiCV.Utils

namespace KleidiCV

open Transition

/-- The values an `unsigned` can take are those below `2 ^ 32`. -/
def unsignedMod : ℕ := 2 ^ 32

/-- `kNoSmcuDomain`. -/
def kNoSmcuDomain : ℕ := sizeMod - 1

/-- `SmcuDomainInfo`; `slot_count` is an `unsigned`. -/
structure SmcuDomainInfo where
  affinity : ℕ
  slotCount : Fin unsignedMod
  shared : Bool

/-- `SmcuTopology`. -/
structure SmcuTopology where
  cpuToDomain : List ℕ
  cpuAllowed : List Bool
  domains : List SmcuDomainInfo

namespace SmcuTopology

def domainForCpu (topology : SmcuTopology) (cpu : ℕ) : ℕ :=
  if h : cpu < topology.cpuToDomain.length then topology.cpuToDomain[cpu] else kNoSmcuDomain

def isCpuAllowed (topology : SmcuTopology) (cpu : ℕ) : Bool :=
  if h : cpu < topology.cpuAllowed.length then topology.cpuAllowed[cpu] else false

def domainCount (topology : SmcuTopology) : ℕ := topology.domains.length

def slotCount (topology : SmcuTopology) (domain : ℕ) : ℕ :=
  if h : domain < topology.domains.length then topology.domains[domain].slotCount else 0

theorem slotCount_lt (topology : SmcuTopology) (domain : ℕ) :
    topology.slotCount domain < unsignedMod := by
  unfold slotCount
  split
  · exact Fin.isLt _
  · decide

end SmcuTopology

/-- `SmeThreadLimiter`: the topology, and whether the counters could be
allocated. -/
structure SmeThreadLimiter where
  topology : SmcuTopology
  allocated : Bool

/-- `available_slots_.size()`. -/
def SmeThreadLimiter.size (limiter : SmeThreadLimiter) : ℕ :=
  if limiter.allocated then limiter.topology.domainCount else 0

/-- `SmeThreadLimiter::AttemptResult`. -/
structure AttemptResult where
  accepted : Bool
  error : KleidicvError
  deriving DecidableEq

/-- Where a thread is inside `try_to_run_on_cpu`. -/
inductive Pc
  /-- Not in a call. -/
  | idle
  /-- In `try_acquire`, before the load. -/
  | load (domain : ℕ)
  /-- At the head of the loop of `try_acquire`, with the local `slots`. -/
  | loop (domain slots : ℕ)
  /-- The slot is taken, the guard exists, the callback is being run. -/
  | callback (domain : ℕ)
  /-- The callback has returned; the destructor of the guard is next. -/
  | release (domain : ℕ) (error : KleidicvError)
  deriving DecidableEq

/-- A slot of `d` belongs to the thread: from the compare-exchange that took
it to the `fetch_add` that returns it. -/
def Pc.holds (d : ℕ) : Pc → Bool
  | .callback d' => d' == d
  | .release d' _ => d' == d
  | _ => false

/-- In a call whose callback has not been run. -/
def Pc.pending : Pc → Bool
  | .load _ | .loop _ _ | .callback _ => true
  | _ => false

/-- What a step does. -/
inductive LimiterEvent
  | call (cpu : ℕ)
  | load
  | compareExchange
  | giveUp
  | callback
  | fetchAdd

variable {T : Type} [Fintype T] [DecidableEq T]

/-- The counters, the values they had before, and what each thread has done:
its place in the current call, the number of its calls, how often each call
ran its callback, and the results returned so far. -/
structure LimiterState (T : Type) where
  available : ℕ → ℕ
  past : ℕ → List ℕ
  pc : T → Pc
  calls : T → ℕ
  callbackRuns : T → ℕ → ℕ
  results : T → List AttemptResult

namespace LimiterState

/-- The values a relaxed load of the counter of `d` may return. -/
def visible (s : LimiterState T) (d : ℕ) : List ℕ := s.available d :: s.past d

/-- A new value of the counter of `d`. -/
def store (s : LimiterState T) (d v : ℕ) : LimiterState T :=
  { s with
    available := Function.update s.available d v
    past := Function.update s.past d (s.available d :: s.past d) }

def goto (s : LimiterState T) (t : T) (p : Pc) : LimiterState T :=
  { s with pc := Function.update s.pc t p }

/-- The call of `t` returns. -/
def return_ (s : LimiterState T) (t : T) (r : AttemptResult) : LimiterState T :=
  { s.goto t .idle with results := Function.update s.results t (s.results t ++ [r]) }

/-- Thread `t` begins its next call. -/
def begin_ (s : LimiterState T) (t : T) : LimiterState T :=
  { s with calls := Function.update s.calls t (s.calls t + 1) }

/-- The callback of the current call of `t` is run. -/
def runCallback (s : LimiterState T) (t : T) : LimiterState T :=
  { s with
    callbackRuns := Function.update s.callbackRuns t
      (Function.update (s.callbackRuns t) (s.calls t) (s.callbackRuns t (s.calls t) + 1)) }

/-- The callbacks running for domain `d`, one for each slot held. -/
def running (s : LimiterState T) (d : ℕ) : ℕ :=
  (Finset.univ.filter fun t => (s.pc t).holds d).card

end LimiterState

namespace SmeThreadLimiter

/-- The state the constructor leaves, before any call. -/
def initial (limiter : SmeThreadLimiter) : LimiterState T where
  available := limiter.topology.slotCount
  past := fun _ => []
  pc := fun _ => .idle
  calls := fun _ => 0
  callbackRuns := fun _ _ => 0
  results := fun _ => []

/-- One step of `try_to_run_on_cpu` by one thread. -/
inductive Step (limiter : SmeThreadLimiter) :
    LimiterState T → T × LimiterEvent → LimiterState T → Prop
  /-- The CPU is not allowed. -/
  | callNotAllowed {s t cpu} : s.pc t = .idle → limiter.topology.isCpuAllowed cpu = false →
      Step limiter s (t, .call cpu) ((s.begin_ t).return_ t ⟨false, .ok⟩)
  /-- `try_acquire` has no counter for the domain. -/
  | callNoCounter {s t cpu} : s.pc t = .idle → limiter.topology.isCpuAllowed cpu = true →
      limiter.size ≤ limiter.topology.domainForCpu cpu →
      Step limiter s (t, .call cpu) ((s.begin_ t).return_ t ⟨false, .ok⟩)
  | call {s t cpu} : s.pc t = .idle → limiter.topology.isCpuAllowed cpu = true →
      limiter.topology.domainForCpu cpu < limiter.size →
      Step limiter s (t, .call cpu)
        ((s.begin_ t).goto t (.load (limiter.topology.domainForCpu cpu)))
  | load {s t d v} : s.pc t = .load d → v ∈ s.visible d →
      Step limiter s (t, .load) (s.goto t (.loop d v))
  /-- `slots` is zero: the loop ends and `try_acquire` returns false. -/
  | giveUp {s t d} : s.pc t = .loop d 0 →
      Step limiter s (t, .giveUp) (s.return_ t ⟨false, .ok⟩)
  | exchange {s t d slots} : s.pc t = .loop d slots → 0 < slots → s.available d = slots →
      Step limiter s (t, .compareExchange) ((s.store d (slots - 1)).goto t (.callback d))
  /-- The counter differs from `slots`, or the weak exchange fails spuriously;
  `slots` is reloaded. -/
  | exchangeFails {s t d slots v} : s.pc t = .loop d slots → 0 < slots → v ∈ s.visible d →
      Step limiter s (t, .compareExchange) (s.goto t (.loop d v))
  | callback {s t d} (error : KleidicvError) : s.pc t = .callback d →
      Step limiter s (t, .callback) ((s.runCallback t).goto t (.release d error))
  | fetchAdd {s t d error} : s.pc t = .release d error →
      Step limiter s (t, .fetchAdd)
        ((s.store d ((s.available d + 1) % unsignedMod)).return_ t ⟨true, error⟩)

/-- The states of all interleavings. -/
abbrev Reached (limiter : SmeThreadLimiter) : LimiterState T → Prop :=
  Reachable (· = limiter.initial) limiter.Step

end SmeThreadLimiter

/-! ### Counting the slots -/

namespace LimiterState

/-- Moving one thread changes the count by what it held and what it holds. -/
theorem running_update (s s' : LimiterState T) (t : T) (p : Pc)
    (h : s'.pc = Function.update s.pc t p) (d : ℕ) :
    s'.running d + ((s.pc t).holds d).toNat = s.running d + (p.holds d).toNat := by
  have key : ∀ f : T → Pc, (Finset.univ.filter fun u => (f u).holds d).card =
      ((Finset.univ.erase t).filter fun u => (f u).holds d).card + ((f t).holds d).toNat := by
    intro f
    rw [← Finset.insert_erase (Finset.mem_univ t), Finset.filter_insert]
    cases hf : (f t).holds d with
    | true =>
      rw [if_pos rfl, Finset.card_insert_of_notMem (by simp), Finset.erase_insert_eq_erase]
      simp
    | false =>
      rw [if_neg (by simp), Finset.erase_insert_eq_erase]
      simp
  have hrest : ((Finset.univ.erase t).filter fun u => (s'.pc u).holds d) =
      (Finset.univ.erase t).filter fun u => (s.pc u).holds d := by
    refine Finset.filter_congr fun u hu => ?_
    rw [h, Function.update_of_ne (Finset.ne_of_mem_erase hu)]
  unfold running
  rw [key s'.pc, key s.pc, hrest, h, Function.update_self]
  omega

end LimiterState

/-- Free slots and running callbacks account for every slot of a domain. -/
structure SlotsAccounted (limiter : SmeThreadLimiter) (s : LimiterState T) : Prop where
  slots : ∀ d < limiter.size, s.available d + s.running d = limiter.topology.slotCount d
  none : ∀ d, limiter.size ≤ d → s.running d = 0
  domains : ∀ t d, (s.pc t = .load d ∨ ∃ v, s.pc t = .loop d v) → d < limiter.size

/-- At most one run of each callback, and none before its turn. -/
structure CallbacksOnce (s : LimiterState T) : Prop where
  once : ∀ t k, s.callbackRuns t k ≤ 1
  future : ∀ t k, s.calls t < k → s.callbackRuns t k = 0
  pending : ∀ t, (s.pc t).pending → s.callbackRuns t (s.calls t) = 0

variable {limiter : SmeThreadLimiter} {s s' : LimiterState T}

omit [DecidableEq T] in
/-- A thread that holds a slot is counted. -/
theorem one_le_running {t : T} {d : ℕ} (h : (s.pc t).holds d = true) : 1 ≤ s.running d :=
  Finset.card_pos.mpr ⟨t, by simpa using h⟩

/-- A step that neither takes nor returns a slot. -/
theorem SlotsAccounted.move (hs : SlotsAccounted limiter s) (t : T) (p : Pc)
    (havail : s'.available = s.available) (hpc : s'.pc = Function.update s.pc t p)
    (hholds : ∀ d, p.holds d = (s.pc t).holds d)
    (hdom : ∀ d, (p = .load d ∨ ∃ v, p = .loop d v) → d < limiter.size) :
    SlotsAccounted limiter s' := by
  have hrun : ∀ d, s'.running d = s.running d := by
    intro d
    have := LimiterState.running_update s s' t p hpc d
    rw [hholds d] at this
    omega
  refine ⟨fun d hd => ?_, fun d hd => ?_, fun u d hu => ?_⟩
  · rw [havail, hrun d, hs.slots d hd]
  · rw [hrun d, hs.none d hd]
  · rw [hpc] at hu
    by_cases hut : u = t
    · subst hut
      rw [Function.update_self] at hu
      exact hdom d hu
    · rw [Function.update_of_ne hut] at hu
      exact hs.domains u d hu

/-- A step that changes the counter of `d` and the slots held for `d` by the
same amount. -/
theorem SlotsAccounted.transfer (hs : SlotsAccounted limiter s) (t : T) (p : Pc) {d v : ℕ}
    (hd : d < limiter.size) (havail : s'.available = Function.update s.available d v)
    (hpc : s'.pc = Function.update s.pc t p)
    (hv : v + (p.holds d).toNat = s.available d + ((s.pc t).holds d).toNat)
    (hother : ∀ d', d' ≠ d → p.holds d' = (s.pc t).holds d')
    (hdom : ∀ d, ¬(p = .load d ∨ ∃ v, p = .loop d v)) :
    SlotsAccounted limiter s' := by
  have hrun : ∀ d', d' ≠ d → s'.running d' = s.running d' := by
    intro d' hne
    have := LimiterState.running_update s s' t p hpc d'
    rw [hother d' hne] at this
    omega
  refine ⟨fun d' hd' => ?_, fun d' hd' => ?_, fun u d' hu => ?_⟩
  · by_cases hne : d' = d
    · subst hne
      have h1 := LimiterState.running_update s s' t p hpc d'
      have h2 := hs.slots d' hd
      rw [havail, Function.update_self]
      omega
    · rw [havail, Function.update_of_ne hne, hrun d' hne, hs.slots d' hd']
  · rw [hrun d' (by omega), hs.none d' hd']
  · rw [hpc] at hu
    by_cases hut : u = t
    · subst hut
      rw [Function.update_self] at hu
      exact absurd hu (hdom d')
    · rw [Function.update_of_ne hut] at hu
      exact hs.domains u d' hu

omit [DecidableEq T] in
/-- Returning a slot cannot wrap the counter: a slot is missing from it. -/
theorem SlotsAccounted.available_succ_lt (hs : SlotsAccounted limiter s) {t : T} {d : ℕ}
    (h : (s.pc t).holds d = true) : d < limiter.size ∧ s.available d + 1 < unsignedMod := by
  have hrun := one_le_running h
  have hd : d < limiter.size := by
    by_contra hd
    have := hs.none d (by omega)
    omega
  have h1 := hs.slots d hd
  have h2 := limiter.topology.slotCount_lt d
  exact ⟨hd, by omega⟩

/-- One step keeps free slots and running callbacks accounted. -/
theorem slots_step {e : T × LimiterEvent} (hs : SlotsAccounted limiter s)
    (h : limiter.Step s e s') : SlotsAccounted limiter s' := by
  cases h with
  | @callNotAllowed t cpu hpc _ =>
    exact hs.move t .idle rfl rfl (by simp [hpc, Pc.holds]) (by simp)
  | @callNoCounter t cpu hpc _ _ =>
    exact hs.move t .idle rfl rfl (by simp [hpc, Pc.holds]) (by simp)
  | @call t cpu hpc _ hd =>
    exact hs.move t _ rfl rfl (by simp [hpc, Pc.holds]) (by simpa using hd)
  | @load t d v hpc _ =>
    exact hs.move t _ rfl rfl (by simp [hpc, Pc.holds])
      (by simpa using hs.domains t d (.inl hpc))
  | @giveUp t d hpc =>
    exact hs.move t .idle rfl rfl (by simp [hpc, Pc.holds]) (by simp)
  | @exchange t d slots hpc hpos heq =>
    exact hs.transfer t (.callback d) (hs.domains t d (.inr ⟨slots, hpc⟩)) rfl rfl
      (by simp [hpc, Pc.holds]; omega)
      (fun d' hne => by simp [hpc, Pc.holds, Ne.symm hne]) (by simp)
  | @exchangeFails t d slots v hpc _ _ =>
    exact hs.move t _ rfl rfl (by simp [hpc, Pc.holds])
      (by simpa using hs.domains t d (.inr ⟨slots, hpc⟩))
  | @callback t d error hpc =>
    exact hs.move t _ rfl rfl (by simp [hpc, Pc.holds]) (by simp)
  | @fetchAdd t d error hpc =>
    obtain ⟨hd, hlt⟩ := hs.available_succ_lt (t := t) (d := d) (by simp [hpc, Pc.holds])
    exact hs.transfer t .idle hd rfl rfl
      (by simp [hpc, Pc.holds, Nat.mod_eq_of_lt hlt])
      (fun d' hne => by simp [hpc, Pc.holds, Ne.symm hne]) (by simp)

omit [Fintype T] in
/-- A step inside a call that does not run its callback. -/
theorem CallbacksOnce.move (hs : CallbacksOnce s) (t : T) (p : Pc)
    (hruns : s'.callbackRuns = s.callbackRuns) (hcalls : s'.calls = s.calls)
    (hpc : s'.pc = Function.update s.pc t p) (hp : p.pending → (s.pc t).pending) :
    CallbacksOnce s' := by
  refine ⟨by rw [hruns]; exact hs.once, by rw [hruns, hcalls]; exact hs.future, fun u hu => ?_⟩
  rw [hruns, hcalls]
  refine hs.pending u ?_
  rw [hpc] at hu
  by_cases hut : u = t
  · subst hut
    exact hp (by simpa using hu)
  · rwa [Function.update_of_ne hut] at hu

omit [Fintype T] in
/-- The first step of a call. -/
theorem CallbacksOnce.begin_ (hs : CallbacksOnce s) (t : T) (p : Pc)
    (hruns : s'.callbackRuns = s.callbackRuns)
    (hcalls : s'.calls = Function.update s.calls t (s.calls t + 1))
    (hpc : s'.pc = Function.update s.pc t p) :
    CallbacksOnce s' := by
  refine ⟨by rw [hruns]; exact hs.once, fun u k hk => ?_, fun u hu => ?_⟩
  · rw [hruns]
    refine hs.future u k ?_
    rw [hcalls] at hk
    by_cases hut : u = t
    · subst hut
      rw [Function.update_self] at hk
      omega
    · rwa [Function.update_of_ne hut] at hk
  · rw [hruns, hcalls]
    by_cases hut : u = t
    · subst hut
      rw [Function.update_self]
      exact hs.future u _ (Nat.lt_succ_self _)
    · rw [hpc, Function.update_of_ne hut] at hu
      rw [Function.update_of_ne hut]
      exact hs.pending u hu

omit [Fintype T] in
theorem callbacks_step {e : T × LimiterEvent} (hs : CallbacksOnce s)
    (h : limiter.Step s e s') : CallbacksOnce s' := by
  cases h with
  | @callNotAllowed t cpu _ _ => exact hs.begin_ t .idle rfl rfl rfl
  | @callNoCounter t cpu _ _ _ => exact hs.begin_ t .idle rfl rfl rfl
  | @call t cpu _ _ _ => exact hs.begin_ t _ rfl rfl rfl
  | @load t d v hpc _ => exact hs.move t _ rfl rfl rfl (by simp [hpc, Pc.pending])
  | @giveUp t d hpc => exact hs.move t .idle rfl rfl rfl (by simp [Pc.pending])
  | @exchange t d slots hpc _ _ =>
    exact hs.move t _ rfl rfl rfl (by simp [hpc, Pc.pending])
  | @exchangeFails t d slots v hpc _ _ =>
    exact hs.move t _ rfl rfl rfl (by simp [hpc, Pc.pending])
  | @fetchAdd t d error hpc => exact hs.move t .idle rfl rfl rfl (by simp [Pc.pending])
  | @callback t d error hpc =>
    have h0 : s.callbackRuns t (s.calls t) = 0 := hs.pending t (by simp [hpc, Pc.pending])
    -- Only the entry of the current call of `t` changes, from 0 to 1.
    have hruns : ∀ u k, ((s.runCallback t).goto t (.release d error)).callbackRuns u k =
        if u = t ∧ k = s.calls t then 1 else s.callbackRuns u k := by
      intro u k
      simp only [LimiterState.goto, LimiterState.runCallback]
      by_cases hut : u = t
      · subst hut
        by_cases hk : k = s.calls u
        · subst hk
          simp [h0]
        · simp [hk]
      · simp [hut]
    refine ⟨fun u k => ?_, fun u k hk => ?_, fun u hu => ?_⟩
    · rw [hruns]
      split
      · exact le_rfl
      · exact hs.once u k
    · have hk' : s.calls u < k := hk
      rw [hruns, if_neg (by rintro ⟨rfl, rfl⟩; omega)]
      exact hs.future u k hk'
    · by_cases hut : u = t
      · subst hut
        simp [LimiterState.goto, Pc.pending] at hu
      · simp only [LimiterState.goto, Function.update_of_ne hut] at hu
        rw [hruns, if_neg (by simp [hut])]
        exact hs.pending u hu

theorem slotsAccounted_of_reached (h : limiter.Reached s) : SlotsAccounted limiter s := by
  refine h.invariant ?_ fun _ _ _ hs ht => slots_step hs ht
  rintro _ rfl
  have hrun : ∀ d, (limiter.initial : LimiterState T).running d = 0 := by
    intro d
    simp [LimiterState.running, SmeThreadLimiter.initial, Pc.holds]
  refine ⟨fun d _ => ?_, fun d _ => hrun d, fun t d ht => ?_⟩
  · rw [hrun d]
    rfl
  · simp [SmeThreadLimiter.initial] at ht

omit [Fintype T] in
theorem callbacksOnce_of_reached (h : limiter.Reached s) : CallbacksOnce s := by
  refine h.invariant ?_ fun _ _ _ hs ht => callbacks_step hs ht
  rintro _ rfl
  exact ⟨fun _ _ => by simp [SmeThreadLimiter.initial],
    fun _ _ _ => by simp [SmeThreadLimiter.initial],
    fun _ _ => by simp [SmeThreadLimiter.initial]⟩

/-- **The limiter keeps its slots**, in every state of every interleaving:
free slots and running callbacks add up to the slots of the domain, so no
domain runs more callbacks than it has slots; the `fetch_add` of a guard never
wraps and a counter stays inside `unsigned`; a call runs its callback at most
once; and once every thread is idle all slots are free again. -/
theorem limiter_sound (limiter : SmeThreadLimiter) (s : LimiterState T)
    (h : limiter.Reached s) :
    (∀ d < limiter.size, s.available d + s.running d = limiter.topology.slotCount d) ∧
    (∀ d, s.running d ≤ limiter.topology.slotCount d) ∧
    (∀ t d error, s.pc t = .release d error → s.available d + 1 < unsignedMod) ∧
    (∀ d < limiter.size, s.available d < unsignedMod) ∧
    (∀ t k, s.callbackRuns t k ≤ 1) ∧
    ((∀ t, s.pc t = .idle) →
      ∀ d < limiter.size, s.available d = limiter.topology.slotCount d) := by
  have hs := slotsAccounted_of_reached h
  refine ⟨hs.slots, fun d => ?_, fun t d error hpc => ?_, fun d hd => ?_,
    (callbacksOnce_of_reached h).once, fun hidle d hd => ?_⟩
  · by_cases hd : d < limiter.size
    · exact Nat.le.intro ((Nat.add_comm _ _).trans (hs.slots d hd))
    · rw [hs.none d (by omega)]
      exact Nat.zero_le _
  · exact (hs.available_succ_lt (t := t) (d := d) (by simp [hpc, Pc.holds])).2
  · exact (Nat.le.intro (hs.slots d hd)).trans_lt (limiter.topology.slotCount_lt d)
  · have hrun : s.running d = 0 := by simp [LimiterState.running, hidle, Pc.holds]
    have := hs.slots d hd
    omega

/-- One shared domain with a single slot, used by CPUs 0 and 1. -/
def oneSlotLimiter : SmeThreadLimiter where
  topology :=
    { cpuToDomain := [0, 0]
      cpuAllowed := [true, true]
      domains := [⟨0, ⟨1, by decide⟩, true⟩] }
  allocated := true

/-- Two threads on the CPUs of one slot, after the first has taken it. -/
theorem limiter_sound_oneSlotLimiter : ∃ s : LimiterState (Fin 2),
    oneSlotLimiter.Reached s ∧ s.running 0 = 1 ∧ s.running 0 ≤ 1 := by
  have h0 : oneSlotLimiter.Reached (oneSlotLimiter.initial : LimiterState (Fin 2)) := .start rfl
  have h1 := h0.next (.call (t := 0) rfl
    (show oneSlotLimiter.topology.isCpuAllowed 0 = true by decide) (by decide))
  have h2 := h1.next (.load (t := 0) (d := 0) (v := 1) rfl (by decide))
  have h3 := h2.next (.exchange (t := 0) (d := 0) rfl Nat.one_pos (by decide))
  exact ⟨_, h3, by decide, (limiter_sound oneSlotLimiter _ h3).2.1 0⟩

end KleidiCV
