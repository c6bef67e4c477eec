import BitN.Transparency

/-! Where a run ends: at a breakpoint or with a step that fails, and until then step by step what the
system does without breakpoints. A run for some cycles can be cut in two. -/
namespace BitN.RunEnds

open Stepping RunCycles Transparency

/-- The same system with no breakpoint in use. -/
def disarmed (world : World) : World := ({ world.1 with numBreakpoints := 0 }, world.2)

def rearmed (numBreakpoints : UInt8) (world : World) : World := ({ world.1 with numBreakpoints }, world.2)

def unwatched (board : Board) (world : World) (n : Nat) : World := (stepped board)^[n] (disarmed world)

def InTurn (world : World) : Prop := world.2 = 0 ∨ world.2 = 1

def current (world : World) : Fin 2 := if world.2 = 1 then 1 else 0

/-- The core whose turn it is stands at one of the addresses. -/
def Stops (addresses : List UInt32) (world : World) : Prop := (world.1.cores.get (current world)).pc ∈ addresses

def Fails (board : Board) (world : World) : Prop := (rp2040StepCore board world.1 world.2).result < 0

theorem currentTurn {world : World} (inTurn : InTurn world) : ((current world : Nat) : Int) = world.2 := by
  unfold current
  rcases inTurn with zero | one
  · rw [zero, if_neg (by decide)]
    rfl
  · rw [one, if_pos rfl]
    rfl

theorem nextTurn (board : Board) {world : World} (inTurn : InTurn world) : InTurn (stepped board world) := by
  rcases inTurn with zero | one
  · exact .inr (by rw [stepped, rp2040Step, zero]; rfl)
  · exact .inl (by rw [stepped, rp2040Step, one]; rfl)

/-- A step that no breakpoint stops does not see how many there are. -/
theorem coreRearmed (board : Board) (sys : Rp2040System) (core : Fin 2) (numBreakpoints : UInt8)
    (free : sys.numBreakpoints = 0) (away : (sys.cores.get core).pc ∉ listed { sys with numBreakpoints }) :
    rp2040StepCore board { sys with numBreakpoints } core =
      let step := rp2040StepCore board sys core
      { step with system := { step.system with numBreakpoints } } := by
  have inside : (0 : Int) ≤ core ∧ (core : Int) < 2 := by omega
  have none : (sys.cores.get core).pc ∉ listed sys := by
    unfold listed
    rw [free]
    exact List.not_mem_nil
  unfold rp2040StepCore
  rw [dif_pos inside, dif_pos inside]
  dsimp only [Int.toNat_natCast]
  split
  case isTrue held => exact absurd (List.contains_iff_mem.mp held) away
  case isFalse =>
    split
    case isTrue =>
      split
      case isTrue held => exact absurd (List.contains_iff_mem.mp held) none
      case isFalse => rfl
    case isFalse =>
      split
      case isTrue held => exact absurd (List.contains_iff_mem.mp held) none
      case isFalse => rfl

section step
variable (board : Board) {world : World} (inTurn : InTurn world)
include inTurn

theorem stepRearmed {numBreakpoints : UInt8} (free : world.1.numBreakpoints = 0)
    (away : ¬ Stops (listed (rearmed numBreakpoints world).1) world) :
    (Fails board (rearmed numBreakpoints world) ↔ Fails board world) ∧
      stepped board (rearmed numBreakpoints world) = rearmed numBreakpoints (stepped board world) := by
  have same := coreRearmed board world.1 (current world) numBreakpoints free away
  rw [currentTurn inTurn] at same
  constructor
  · change (rp2040StepCore board { world.1 with numBreakpoints } world.2).result < 0 ↔ _
    rw [same]
    exact Iff.rfl
  · change ((rp2040StepCore board { world.1 with numBreakpoints } world.2).system, (world.2 + 1) % 2) = _
    rw [same]
    rfl

theorem stepStops (at_ : Stops (listed world.1) world) :
    ¬ Fails board world ∧ stepped board world = ({ world.1 with breakpointTriggered := true }, (world.2 + 1) % 2) := by
  have outcome := stepOutcome board world.1 (current world)
  rw [currentTurn inTurn] at outcome
  cases outcome with
  | hit _ code state =>
    constructor
    · unfold Fails
      rw [code]
      decide
    · rw [stepped, rp2040Step, state]
  | failed away => exact absurd at_ away
  | executed away => exact absurd at_ away

end step

/-! Without breakpoints -/

/-- What the system without breakpoints keeps of the world it starts from. -/
structure Kept (before after : World) : Prop where
  numBreakpoints : after.1.numBreakpoints = 0
  breakpoints : after.1.breakpoints = before.1.breakpoints
  halted : after.1.halted = before.1.halted
  triggered : after.1.breakpointTriggered = before.1.breakpointTriggered
  inTurn : InTurn after

theorem unwatchedSucc (board : Board) (world : World) (n : Nat) :
    unwatched board world (n + 1) = stepped board (unwatched board world n) := Function.iterate_succ_apply' _ n _

section runs
variable {board : Board} {world : World} (inTurn : InTurn world)
include inTurn

theorem unwatchedKept (board : Board) (n : Nat) : Kept world (unwatched board world n) := by
  induction n with
  | zero => exact ⟨rfl, rfl, rfl, rfl, inTurn⟩
  | succ n kept =>
    have turned := stepTurned board (unwatched board world n).1 (current (unwatched board world n)) <| by
      unfold listed
      rw [kept.numBreakpoints]
      exact List.not_mem_nil
    rw [currentTurn kept.inTurn] at turned
    rw [unwatchedSucc]
    exact ⟨turned.numBreakpoints.trans kept.numBreakpoints, turned.breakpoints.trans kept.breakpoints,
      turned.halted.trans kept.halted, turned.triggered.trans kept.triggered, nextTurn board kept.inTurn⟩

/-- The breakpoints that are armed again are those of the world at the start. -/
theorem rearmedListed (board : Board) (n : Nat) :
    listed (rearmed world.1.numBreakpoints (unwatched board world n)).1 = listed world.1 := by
  unfold listed rearmed
  rw [(unwatchedKept inTurn board n).breakpoints]

end runs

/-! Up to a breakpoint -/

/-- For `n` steps no core is at a breakpoint, and none fails. -/
def Quiet (board : Board) (world : World) (n : Nat) : Prop :=
  ∀ m < n, ¬ Stops (listed world.1) (unwatched board world m) ∧ ¬ Fails board (unwatched board world m)

inductive Ends (board : Board) (world : World) (result : Int) (after : World) : Prop
  | breakpoint (n : Nat) (quiet : Quiet board world n) (here : Stops (listed world.1) (unwatched board world n))
      (code : result = 0)
      (state : after =
        ({ (rearmed world.1.numBreakpoints (unwatched board world n)).1 with breakpointTriggered := true },
          ((unwatched board world n).2 + 1) % 2))
  | failure (n : Nat) (quiet : Quiet board world n) (away : ¬ Stops (listed world.1) (unwatched board world n))
      (here : Fails board (unwatched board world n)) (code : result = -1)
      (state : after = rearmed world.1.numBreakpoints (unwatched board world (n + 1)))

def untilHalt (sys : Rp2040System) : Bool := !sys.halted && !sys.breakpointTriggered

instance (board : Board) (world : World) : Decidable (Fails board world) := inferInstanceAs (Decidable (_ < _))

def roundOut (board : Board) (going : Rp2040System → Bool) (world : World) : Unit ⊕ Int :=
  if going world.1 then if Fails board world then .inr (-1) else .inl () else .inr 0

def roundNext (board : Board) (going : Rp2040System → Bool) (world : World) : World :=
  if going world.1 then stepped board world else world

theorem roundTotal (board : Board) (going : Rp2040System → Bool) (world : World) :
    round board going () world = (some (roundOut board going world), roundNext board going world) := by
  unfold roundOut roundNext
  cases goes : going world.1 with
  | false => exact roundStops goes
  | true => exact roundSteps goes

section ends
variable {board : Board} {world : World} (inTurn : InTurn world) (running : world.1.halted = false)
  (fresh : world.1.breakpointTriggered = false)
include inTurn running fresh

theorem rearmedGoes (board : Board) (n : Nat) :
    untilHalt (rearmed world.1.numBreakpoints (unwatched board world n)).1 = true := by
  have kept := unwatchedKept inTurn board n
  change (!(unwatched board world n).1.halted && !(unwatched board world n).1.breakpointTriggered) = true
  rw [kept.halted, kept.triggered, running, fresh]
  rfl

theorem roundsQuiet {n : Nat} (quiet : Quiet board world n) :
    (roundNext board untilHalt)^[n] world = rearmed world.1.numBreakpoints (unwatched board world n) := by
  induction n with
  | zero => rfl
  | succ n ih =>
    have kept := unwatchedKept inTurn board n
    have away : ¬ Stops (listed (rearmed world.1.numBreakpoints (unwatched board world n)).1)
        (unwatched board world n) := by
      rw [rearmedListed inTurn board n]
      exact (quiet n (Nat.lt_succ_self n)).1
    rw [Function.iterate_succ_apply', ih fun m below => quiet m (Nat.lt_succ_of_lt below), roundNext,
      if_pos (rearmedGoes inTurn running fresh board n),
      (stepRearmed board kept.inTurn kept.numBreakpoints away).2, unwatchedSucc]

theorem outQuiet {n : Nat} (quiet : Quiet board world n)
    (away : ¬ Stops (listed world.1) (unwatched board world n)) :
    roundOut board untilHalt ((roundNext board untilHalt)^[n] world) =
      if Fails board (unwatched board world n) then .inr (-1) else .inl () := by
  have kept := unwatchedKept inTurn board n
  rw [← rearmedListed inTurn board n] at away
  rw [roundsQuiet inTurn running fresh quiet, roundOut, if_pos (rearmedGoes inTurn running fresh board n)]
  exact if_congr (stepRearmed board kept.inTurn kept.numBreakpoints away).1 rfl rfl

theorem onQuiet {m n : Nat} (quiet : Quiet board world n) (below : m < n) :
    roundOut board untilHalt ((roundNext board untilHalt)^[m] world) = .inl () := by
  rw [outQuiet inTurn running fresh (fun k less => quiet k (Nat.lt_trans less below)) (quiet m below).1,
    if_neg (quiet m below).2]

theorem roundHits {n : Nat} (quiet : Quiet board world n) (here : Stops (listed world.1) (unwatched board world n)) :
    roundOut board untilHalt ((roundNext board untilHalt)^[n] world) = .inl () ∧
      (roundNext board untilHalt)^[n + 1] world =
        ({ (rearmed world.1.numBreakpoints (unwatched board world n)).1 with breakpointTriggered := true },
          ((unwatched board world n).2 + 1) % 2) := by
  have kept := unwatchedKept inTurn board n
  have goes := rearmedGoes inTurn running fresh board n
  rw [← rearmedListed inTurn board n] at here
  have inTurn' : InTurn (rearmed world.1.numBreakpoints (unwatched board world n)) := kept.inTurn
  obtain ⟨ok, next⟩ := stepStops board inTurn' here
  constructor
  · rw [roundsQuiet inTurn running fresh quiet, roundOut, if_pos goes, if_neg ok]
  · rw [Function.iterate_succ_apply', roundsQuiet inTurn running fresh quiet, roundNext, if_pos goes, next]
    rfl

theorem endsReturn {result : Int} {after : World} (ends : Ends board world result after) :
    ∃ fuel, rp2040RunUntilHalt board fuel world = (some result, after) := by
  refine (Run.loopFirst (roundTotal board untilHalt)).mpr ?_
  cases ends with
  | breakpoint n quiet here code state =>
    obtain ⟨on, hit⟩ := roundHits inTurn running fresh quiet here
    refine ⟨n + 1, fun m below => ?_, ?_, ?_⟩
    · obtain less | rfl := Nat.lt_succ_iff_lt_or_eq.mp below
      · exact onQuiet inTurn running fresh quiet less
      · exact on
    · rw [hit, code]
      unfold roundOut untilHalt
      simp
    · rw [Function.iterate_succ_apply', hit, state]
      unfold roundNext untilHalt
      simp
  | failure n quiet away here code state =>
    refine ⟨n, fun m below => onQuiet inTurn running fresh quiet below, ?_, ?_⟩
    · rw [outQuiet inTurn running fresh quiet away, if_pos here, code]
    · have kept := unwatchedKept inTurn board n
      rw [← rearmedListed inTurn board n] at away
      rw [Function.iterate_succ_apply', roundsQuiet inTurn running fresh quiet, roundNext,
        if_pos (rearmedGoes inTurn running fresh board n),
        (stepRearmed board kept.inTurn kept.numBreakpoints away).2, state,
        unwatchedSucc]

/-- The system is run until then step by step as if it had no breakpoints: it stops where the first
step would be that finds its core at one or that fails, and nowhere else. -/
theorem untilHaltExactly (result : Int) (after : World) :
    (∃ fuel, rp2040RunUntilHalt board fuel world = (some result, after)) ↔ Ends board world result after := by
  constructor
  · rintro ⟨fuel, ran⟩
    have some_ : ∃ n, Stops (listed world.1) (unwatched board world n) ∨ Fails board (unwatched board world n) := by
      by_contra never
      have quiet (n : Nat) : Quiet board world n := fun m _ =>
        ⟨fun here => never ⟨m, .inl here⟩, fun here => never ⟨m, .inr here⟩⟩
      obtain ⟨n, _, done, _⟩ := (Run.loopFirst (roundTotal board untilHalt)).mp ⟨fuel, ran⟩
      rw [onQuiet inTurn running fresh (quiet (n + 1)) (Nat.lt_succ_self n)] at done
      cases done
    obtain ⟨n, here, first⟩ := WellFounded.has_min Nat.lt_wfRel.wf _ some_
    have quiet : Quiet board world n := fun m below =>
      ⟨fun at_ => first m (.inl at_) below, fun fails => first m (.inr fails) below⟩
    obtain ⟨result', after', ends⟩ : ∃ result' after', Ends board world result' after' := by
      by_cases at_ : Stops (listed world.1) (unwatched board world n)
      · exact ⟨_, _, .breakpoint n quiet at_ rfl rfl⟩
      · exact ⟨_, _, .failure n quiet at_ (here.resolve_left at_) rfl rfl⟩
    obtain ⟨fuel', ran'⟩ := endsReturn inTurn running fresh ends
    obtain ⟨rfl, rfl⟩ := Run.loopOnce (roundTotal board untilHalt) ran ran'
    exact ends
  · exact endsReturn inTurn running fresh

end ends

theorem armedEnds : Ends nopBoard armed 0 atBreakpoint :=
  (untilHaltExactly (.inl rfl) rfl rfl 0 atBreakpoint).mp ⟨9, Prod.ext (by decide) rfl⟩

/-! One run after another -/

def Returned (board : Board) (cycles : UInt64) (world : World) (result : Int) (after : World) : Prop :=
  ∃ fuel, rp2040RunCycles board cycles fuel world = (some result, after)

section compose
variable {board : Board} {world : World}

theorem returnedOnce {cycles : UInt64} {result result' : Int} {after after' : World}
    (one : Returned board cycles world result after) (two : Returned board cycles world result' after') :
    result = result' ∧ after = after' :=
  Run.loopOnce (roundTotal board (going (world.1.cycleCount + cycles))) one.choose_spec two.choose_spec

/-- A run that would go on is not stopped by a later last cycle. -/
theorem roundLonger {target later : UInt64} (more : target.toNat ≤ later.toNat) (goes : going target world.1 = true) :
    roundOut board (going later) world = roundOut board (going target) world ∧
      roundNext board (going later) world = roundNext board (going target) world := by
  obtain ⟨below, running, fresh⟩ := goingExactly.mp goes
  have goesOn : going later world.1 = true := goingExactly.mpr ⟨Nat.lt_of_lt_of_le below more, running, fresh⟩
  unfold roundOut roundNext
  rw [goes, goesOn]
  exact ⟨rfl, rfl⟩

theorem roundOn {target : UInt64} (on : roundOut board (going target) world = .inl ()) :
    going target world.1 = true := by
  by_contra stop
  rw [roundOut, if_neg stop] at on
  cases on

theorem roundsLonger {target later : UInt64} (more : target.toNat ≤ later.toNat) {n : Nat}
    (on : ∀ m < n, roundOut board (going target) ((roundNext board (going target))^[m] world) = .inl ()) :
    (roundNext board (going later))^[n] world = (roundNext board (going target))^[n] world := by
  induction n with
  | zero => rfl
  | succ n ih =>
    rw [Function.iterate_succ_apply', Function.iterate_succ_apply', ih fun m below => on m (Nat.lt_succ_of_lt below)]
    exact (roundLonger more (roundOn (on n (Nat.lt_succ_self n)))).2

theorem onLonger {target later : UInt64} (more : target.toNat ≤ later.toNat) {m n : Nat} (below : m < n)
    (on : ∀ m < n, roundOut board (going target) ((roundNext board (going target))^[m] world) = .inl ()) :
    roundOut board (going later) ((roundNext board (going later))^[m] world) = .inl () := by
  rw [roundsLonger more fun k less => on k (Nat.lt_trans less below),
    (roundLonger more (roundOn (on m below))).1]
  exact on m below

theorem stopsReturned {target : UInt64} (stop : going target world.1 = false) (result : Int) (after : World) :
    (∃ fuel, Run.loop (round board (going target)) fuel () world = (some result, after)) ↔
      result = 0 ∧ after = world := by
  constructor
  · rintro ⟨fuel, ran⟩
    cases fuel with
    | zero => cases ran
    | succ fuel =>
      rw [Run.loop, Run.bindStep (roundStops stop)] at ran
      cases ran
      exact ⟨rfl, rfl⟩
  · rintro ⟨rfl, rfl⟩
    refine ⟨1, ?_⟩
    rw [Run.loop, Run.bindStep (roundStops stop)]
    rfl

/-- Where a run without failure leaves off, its last cycle has come or no run goes on. -/
theorem returnedStops {cycles : UInt64} {mid : World} (whole : world.1.cycleCount.toNat + cycles.toNat < 2 ^ 64)
    (ran : Returned board cycles world 0 mid) :
    mid.1.cycleCount = world.1.cycleCount + cycles ∨ ∀ target, going target mid.1 = false := by
  obtain ⟨fuel, ran⟩ := ran
  have sum : (world.1.cycleCount + cycles).toNat = world.1.cycleCount.toNat + cycles.toNat := by
    rw [UInt64.toNat_add]
    exact Nat.mod_eq_of_lt whole
  obtain ⟨before, stop⟩ := loopStops (fun sys => sys.cycleCount.toNat ≤ (world.1.cycleCount + cycles).toNat)
    (fun _ goes ok => (underwayStep goes ok).before) (by omega) ran
  by_cases below : mid.1.cycleCount.toNat < (world.1.cycleCount + cycles).toNat
  · refine .inr fun target => ?_
    rw [Bool.eq_false_iff] at stop ⊢
    exact fun goes => stop (goingExactly.mpr ⟨below, (goingExactly.mp goes).2⟩)
  · exact .inl (UInt64.toNat_inj.mp (by omega))

/-- The first rounds of the longer run are those of the shorter one. -/
theorem returnedRounds {a b : UInt64} {result : Int} {mid : World}
    (whole : world.1.cycleCount.toNat + a.toNat + b.toNat < 2 ^ 64) (first : Returned board a world result mid) :
    (world.1.cycleCount + a).toNat ≤ (world.1.cycleCount + (a + b)).toNat ∧
      ∃ n, (∀ m < n, roundOut board (going (world.1.cycleCount + a))
          ((roundNext board (going (world.1.cycleCount + a)))^[m] world) = .inl ()) ∧
        roundOut board (going (world.1.cycleCount + a))
          ((roundNext board (going (world.1.cycleCount + a)))^[n] world) = .inr result ∧
        mid = (roundNext board (going (world.1.cycleCount + a)))^[n + 1] world := by
  refine ⟨?_, (Run.loopFirst (roundTotal board _)).mp first⟩
  simp only [UInt64.toNat_add]
  omega

theorem returnedOn {a b : UInt64} {mid : World} (whole : world.1.cycleCount.toNat + a.toNat + b.toNat < 2 ^ 64)
    (first : Returned board a world 0 mid) (result : Int) (after : World) :
    Returned board (a + b) world result after ↔ Returned board b mid result after := by
  obtain ⟨more, n, on, done, there⟩ := returnedRounds whole first
  have stop :
      going (world.1.cycleCount + a) ((roundNext board (going (world.1.cycleCount + a)))^[n] world).1 = false := by
    rw [Bool.eq_false_iff]
    intro goes
    rw [roundOut, if_pos goes] at done
    split at done
    · cases done
    · cases done
  have same : (roundNext board (going (world.1.cycleCount + (a + b))))^[n] world = mid := by
    rw [roundsLonger more on, there, Function.iterate_succ_apply', roundNext, stop]
    rfl
  have skip := @Run.loopSkip _ _ _ _ _ (roundTotal board (going (world.1.cycleCount + (a + b)))) world after result n
    fun m below => onLonger more below on
  rw [same] at skip
  refine skip.symm.trans ?_
  change _ ↔ ∃ fuel, Run.loop (round board (going (mid.1.cycleCount + b))) fuel () mid = _
  obtain count | stops := returnedStops (by omega) first
  · rw [count, UInt64.add_assoc]
  · rw [stopsReturned (stops _), stopsReturned (stops _)]

theorem returnedFails {a b : UInt64} {result : Int} {after : World}
    (whole : world.1.cycleCount.toNat + a.toNat + b.toNat < 2 ^ 64) (first : Returned board a world result after)
    (failed : result < 0) : Returned board (a + b) world result after := by
  obtain ⟨more, n, on, done, there⟩ := returnedRounds whole first
  refine (Run.loopFirst (roundTotal board _)).mpr ⟨n, fun m below => onLonger more below on, ?_⟩
  have goes :
      going (world.1.cycleCount + a) ((roundNext board (going (world.1.cycleCount + a)))^[n] world).1 = true := by
    by_contra stop
    rw [roundOut, if_neg stop] at done
    cases done
    exact absurd failed (by decide)
  obtain ⟨out, next⟩ := @roundLonger board _ _ _ more goes
  rw [Function.iterate_succ_apply', roundsLonger more on, out, next, there, Function.iterate_succ_apply']
  exact ⟨done, rfl⟩

theorem returnedCode {cycles : UInt64} {result : Int} {after : World} (ran : Returned board cycles world result after) :
    result = 0 ∨ result = -1 := by
  obtain ⟨n, _, done, _⟩ := (Run.loopFirst (roundTotal board (going (world.1.cycleCount + cycles)))).mp ran
  unfold roundOut at done
  split at done
  · split at done
    · exact .inr (Sum.inr.inj done).symm
    · cases done
  · exact .inl (Sum.inr.inj done).symm

/-- A run for some cycles does what two runs do that share them, wherever the cut is. -/
theorem cyclesCompose (a b : UInt64) (whole : world.1.cycleCount.toNat + a.toNat + b.toNat < 2 ^ 64) (result : Int)
    (after : World) :
    Returned board (a + b) world result after ↔
      ∃ code mid, Returned board a world code mid ∧
        if code < 0 then result = code ∧ after = mid else Returned board b mid result after := by
  constructor
  · intro ran
    obtain ⟨fuel, code, mid, first⟩ := runReturns board a world
    refine ⟨code, mid, ⟨fuel, first⟩, ?_⟩
    split
    case isTrue failed => exact returnedOnce ran (returnedFails whole ⟨fuel, first⟩ failed)
    case isFalse ok =>
      obtain rfl | rfl := returnedCode ⟨fuel, first⟩
      · exact (returnedOn whole ⟨fuel, first⟩ result after).mp ran
      · exact absurd (by decide) ok
  · rintro ⟨code, mid, first, rest⟩
    split at rest
    case isTrue failed =>
      obtain ⟨rfl, rfl⟩ := rest
      exact returnedFails whole first failed
    case isFalse ok =>
      obtain rfl | rfl := returnedCode first
      · exact (returnedOn whole first result after).mpr rest
      · exact absurd (by decide) ok

end compose

def ranFive : World := (rp2040RunCycles nopBoard 5 9 (rp2040Create nopBoard, 0)).2

theorem createdCompose : ∃ code mid, Returned nopBoard 2 (rp2040Create nopBoard, 0) code mid ∧
    if code < 0 then 0 = code ∧ ranFive = mid else Returned nopBoard 3 mid 0 ranFive :=
  (cyclesCompose 2 3 (by decide) 0 _).mp ⟨9, Prod.ext (by decide) rfl⟩

end BitN.RunEnds
