import BitN.Rp2040
import Mathlib.Data.List.Induction
import Mathlib.Logic.Function.Basic
import Mathlib.Tactic.Common

/-! Two emulated systems in one process. Which core a step takes is kept in a static variable,
so the steps of one system turn over the cores of the other. -/
namespace BitN.Interleaving

inductive Side where
  | first | second
  deriving DecidableEq

def Side.other : Side → Side
  | .first => .second
  | .second => .first

structure World where
  systems : Side → Rp2040System
  lastCore : Int
  stepped : List (Side × Int)

def World.step (board : Board) (world : World) (side : Side) : World :=
  let (step, lastCore) := rp2040Step board world.lastCore (world.systems side)
  { systems := Function.update world.systems side step.system
    lastCore
    stepped := world.stepped ++ [(side, world.lastCore)] }

def World.cores (world : World) (side : Side) : List Int :=
  world.stepped.filterMap fun (stepped, core) => if stepped = side then some core else none

def interleaved (board : Board) (systems : Side → Rp2040System) (schedule : List Side) : World :=
  schedule.foldl (World.step board) ⟨systems, 0, []⟩

-- In a process of its own.
def alone (board : Board) (sys : Rp2040System) (n : Nat) : Rp2040System × Int := rp2040Steps board 0 sys n

/-- The steps of one system, each of the core whose turn it is. -/
def inTurn (board : Board) (sys : Rp2040System) : Nat → Rp2040System
  | 0 => sys
  | n + 1 => (rp2040StepCore board (inTurn board sys n) ((n : Int) % 2)).system

def alternating (n : Nat) : List Int := (List.range n).map fun k : Nat => (k : Int) % 2

/-- Neither system has the other's steps in its state, and each takes its cores in turn. -/
structure Apart (board : Board) (systems : Side → Rp2040System) (schedule : List Side) : Prop where
  states : ∀ side, (interleaved board systems schedule).systems side =
    (alone board (systems side) (schedule.count side)).1
  steps : ∀ side, (interleaved board systems schedule).systems side =
    inTurn board (systems side) (schedule.count side)
  turns : ∀ side, (interleaved board systems schedule).cores side = alternating (schedule.count side)
  shares : ∀ side, ((interleaved board systems schedule).cores side).count 0 = (schedule.count side + 1) / 2 ∧
    ((interleaved board systems schedule).cores side).count 1 = schedule.count side / 2

/-- Each step of a system finds an even number of steps of the other before it. -/
def Paired (schedule : List Side) : Prop :=
  ∀ before side after, schedule = before ++ side :: after → before.count side.other % 2 = 0

section runs
variable {board : Board} {systems : Side → Rp2040System}

theorem interleavedSnoc (schedule : List Side) (side : Side) :
    interleaved board systems (schedule ++ [side]) = (interleaved board systems schedule).step board side :=
  List.foldl_append

theorem lastCoreTurns (schedule : List Side) :
    (interleaved board systems schedule).lastCore = (schedule.length : Int) % 2 := by
  induction schedule using List.reverseRecOn with
  | nil => rfl
  | append_singleton schedule side ih =>
    have next : ((interleaved board systems schedule).step board side).lastCore =
        ((interleaved board systems schedule).lastCore + 1) % 2 := rfl
    rw [interleavedSnoc, next, ih, List.length_append, List.length_singleton]
    omega

theorem aloneTurns (sys : Rp2040System) (n : Nat) : (alone board sys n).2 = (n : Int) % 2 := by
  induction n with
  | zero => rfl
  | succ n ih =>
    have next : (alone board sys (n + 1)).2 = ((alone board sys n).2 + 1) % 2 := rfl
    rw [next, ih]
    omega

theorem aloneInTurn (sys : Rp2040System) (n : Nat) : (alone board sys n).1 = inTurn board sys n := by
  induction n with
  | zero => rfl
  | succ n ih =>
    have next : (alone board sys (n + 1)).1 = (rp2040StepCore board (alone board sys n).1 (alone board sys n).2).system :=
      rfl
    rw [next, ih, aloneTurns]
    rfl

theorem coresSnoc (schedule : List Side) (side stepped : Side) :
    (interleaved board systems (schedule ++ [stepped])).cores side =
      (interleaved board systems schedule).cores side ++
        if stepped = side then [(schedule.length : Int) % 2] else [] := by
  rw [interleavedSnoc, ← @lastCoreTurns board systems schedule]
  unfold World.cores World.step
  dsimp only
  rw [List.filterMap_append]
  split <;> simp [*]

theorem lengthCounts (schedule : List Side) (side : Side) :
    schedule.length = schedule.count side + schedule.count side.other := by
  induction schedule with
  | nil => rfl
  | cons stepped schedule ih => cases stepped <;> cases side <;> simp [Side.other] at ih ⊢ <;> omega

theorem alternatingSucc (n : Nat) : alternating (n + 1) = alternating n ++ [(n : Int) % 2] := by
  unfold alternating
  rw [List.range_succ, List.map_append, List.map_singleton]

theorem alternatingCounts (n : Nat) : (alternating n).count 0 = (n + 1) / 2 ∧ (alternating n).count 1 = n / 2 := by
  induction n with
  | zero => decide
  | succ n ih =>
    rw [alternatingSucc, List.count_append, List.count_append, ih.1, ih.2]
    rcases Nat.mod_two_eq_zero_or_one n with even | odd
    · have core : (n : Int) % 2 = 0 := by omega
      rw [core]
      refine ⟨?_, ?_⟩ <;> simp <;> omega
    · have core : (n : Int) % 2 = 1 := by omega
      rw [core]
      refine ⟨?_, ?_⟩ <;> simp <;> omega

theorem pairedSnoc (schedule : List Side) (side : Side) :
    Paired (schedule ++ [side]) ↔ Paired schedule ∧ schedule.count side.other % 2 = 0 := by
  constructor
  · intro paired
    refine ⟨fun before stepped after split => ?_, paired schedule side [] rfl⟩
    exact paired before stepped (after ++ [side]) (by rw [split, List.append_assoc, List.cons_append])
  · rintro ⟨paired, last⟩ before stepped after split
    rcases List.eq_nil_or_concat after with rfl | ⟨inner, side', rfl⟩
    · obtain ⟨rfl, same⟩ := List.append_inj' split rfl
      obtain rfl := List.singleton_inj.mp same
      exact last
    · have cut : schedule ++ [side] = (before ++ stepped :: inner) ++ [side'] := by
        rw [split]
        simp
      exact paired before stepped inner (List.append_inj' cut rfl).1

theorem turnSnoc (schedule : List Side) (side : Side) :
    (interleaved board systems (schedule ++ [side])).cores side = alternating ((schedule ++ [side]).count side) ↔
      (interleaved board systems schedule).cores side = alternating (schedule.count side) ∧
        schedule.count side.other % 2 = 0 := by
  have total := lengthCounts schedule side
  rw [coresSnoc, if_pos rfl, List.count_append, List.count_singleton_self, alternatingSucc]
  constructor
  · intro same
    obtain ⟨turns, core⟩ := List.append_inj' same rfl
    have core := List.singleton_inj.mp core
    exact ⟨turns, by omega⟩
  · rintro ⟨turns, even⟩
    rw [turns]
    congr 2
    omega

theorem turnsSnoc (schedule : List Side) (side : Side) :
    (∀ each, (interleaved board systems (schedule ++ [side])).cores each =
        alternating ((schedule ++ [side]).count each)) ↔
      (∀ each, (interleaved board systems schedule).cores each = alternating (schedule.count each)) ∧
        schedule.count side.other % 2 = 0 := by
  have same : ∀ each, side ≠ each →
      ((interleaved board systems (schedule ++ [side])).cores each = alternating ((schedule ++ [side]).count each) ↔
        (interleaved board systems schedule).cores each = alternating (schedule.count each)) := by
    intro each differs
    rw [coresSnoc, if_neg differs, List.append_nil, List.count_append, List.count_singleton, beq_false_of_ne differs]
    rfl
  constructor
  · intro turns
    refine ⟨fun each => ?_, ((turnSnoc schedule side).mp (turns side)).2⟩
    by_cases differs : side = each
    · subst differs
      exact ((turnSnoc schedule side).mp (turns side)).1
    · exact (same each differs).mp (turns each)
  · rintro ⟨turns, even⟩ each
    by_cases differs : side = each
    · subst differs
      exact (turnSnoc schedule side).mpr ⟨turns side, even⟩
    · exact (same each differs).mpr (turns each)

theorem turnsPaired (schedule : List Side) :
    (∀ side, (interleaved board systems schedule).cores side = alternating (schedule.count side)) ↔ Paired schedule := by
  induction schedule using List.reverseRecOn with
  | nil =>
    refine ⟨fun _ before side after split => ?_, fun _ side => rfl⟩
    cases before <;> cases split
  | append_singleton schedule side ih => rw [turnsSnoc, pairedSnoc, ih]

theorem pairedStates {schedule : List Side} (paired : Paired schedule) (side : Side) :
    (interleaved board systems schedule).systems side = (alone board (systems side) (schedule.count side)).1 := by
  induction schedule using List.reverseRecOn with
  | nil => rfl
  | append_singleton schedule stepped ih =>
    obtain ⟨before, even⟩ := (pairedSnoc schedule stepped).mp paired
    have total := lengthCounts schedule stepped
    rw [interleavedSnoc]
    by_cases differs : side = stepped
    · subst differs
      -- The static variable stands where the system's own steps alone would have left it.
      have same : (interleaved board systems schedule).lastCore =
          (alone board (systems side) (schedule.count side)).2 := by
        rw [lastCoreTurns, aloneTurns]
        omega
      rw [List.count_append, List.count_singleton_self]
      unfold World.step
      dsimp only
      rw [Function.update_self, ih before, same]
      rfl
    · rw [List.count_append, List.count_singleton, beq_false_of_ne (Ne.symm differs)]
      exact (Function.update_of_ne differs ..).trans (ih before)

end runs

theorem systemsApart (board : Board) (systems : Side → Rp2040System) (schedule : List Side) :
    Apart board systems schedule ↔ Paired schedule := by
  refine ⟨fun apart => turnsPaired schedule |>.mp apart.turns, fun paired => ?_⟩
  have turns := (@turnsPaired board systems schedule).mpr paired
  refine ⟨pairedStates paired, fun side => ?_, turns, fun side => ?_⟩
  · rw [pairedStates paired, aloneInTurn]
  · rw [turns side]
    exact alternatingCounts _

theorem twoSystemsMeet : ¬ Apart nopBoard (fun _ => rp2040Create nopBoard) [.first, .second] := by
  intro apart
  have pc := congrArg (fun sys => sys.cores[0].pc) (apart.states .second)
  exact absurd pc (by decide)

end BitN.Interleaving
