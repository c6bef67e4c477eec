import Mathlib.Data.Finmap

/-! A stack of finite maps that is never empty: what nested scopes are for. -/
namespace ScopedMaps

variable {κ ν : Type}

inductive Op (κ ν : Type) where
  | push
  | pop
  | add (key : κ) (value : ν)

/-- Sequences in which every push has its pop and no pop is without a push. -/
inductive Inside : List (Op κ ν) → Prop where
  | nil : Inside []
  | add (key value) {rest} (later : Inside rest) : Inside (.add key value :: rest)
  | block {inner rest} (inside : Inside inner) (later : Inside rest) : Inside (.push :: inner ++ .pop :: rest)

structure Stack (κ ν : Type) where
  inner : List (Finmap fun _ : κ => ν)
  bottom : Finmap fun _ : κ => ν

namespace Stack

def empty : Stack κ ν := ⟨[], ∅⟩

def top (stack : Stack κ ν) : Finmap fun _ : κ => ν := stack.inner.headD stack.bottom

def setTop (stack : Stack κ ν) (map : Finmap fun _ : κ => ν) : Stack κ ν :=
  match stack.inner with
  | [] => { stack with bottom := map }
  | _ :: outer => { stack with inner := map :: outer }

variable [DecidableEq κ]

/-- The innermost map that has the key decides. -/
def lookup (stack : Stack κ ν) (key : κ) : Option ν :=
  (stack.inner ++ [stack.bottom]).findSome? fun map => map.lookup key

def push (stack : Stack κ ν) : Stack κ ν := { stack with inner := ∅ :: stack.inner }

-- The map at the bottom stays.
def pop (stack : Stack κ ν) : Stack κ ν := { stack with inner := stack.inner.tail }

-- A key that the innermost map has is refused.
def add (stack : Stack κ ν) (key : κ) (value : ν) : Stack κ ν :=
  if key ∈ stack.top then stack else stack.setTop (stack.top.insert key value)

def apply (stack : Stack κ ν) : Op κ ν → Stack κ ν
  | .push => stack.push
  | .pop => stack.pop
  | .add key value => stack.add key value

def run (stack : Stack κ ν) (ops : List (Op κ ν)) : Stack κ ν := ops.foldl apply stack

omit [DecidableEq κ] in
@[simp] theorem setTopTwice (stack : Stack κ ν) (map map' : Finmap fun _ : κ => ν) :
    (stack.setTop map).setTop map' = stack.setTop map' := by
  rcases stack with ⟨_ | ⟨top, outer⟩, bottom⟩ <;> rfl

omit [DecidableEq κ] in
@[simp] theorem setTopSame (stack : Stack κ ν) : stack.setTop stack.top = stack := by
  rcases stack with ⟨_ | ⟨top, outer⟩, bottom⟩ <;> rfl

theorem addTop (stack : Stack κ ν) (key : κ) (value : ν) : ∃ map, stack.add key value = stack.setTop map := by
  unfold add
  split
  · exact ⟨stack.top, (setTopSame stack).symm⟩
  · exact ⟨_, rfl⟩

theorem runAppend (stack : Stack κ ν) (ops ops' : List (Op κ ν)) :
    stack.run (ops ++ ops') = (stack.run ops).run ops' := List.foldl_append

theorem runBlock {ops : List (Op κ ν)} (kept : ∀ stack : Stack κ ν, ∃ map, stack.run ops = stack.setTop map)
    (stack : Stack κ ν) : stack.run (.push :: ops ++ [.pop]) = stack := by
  obtain ⟨map, ran⟩ := kept stack.push
  have popped : stack.run (.push :: ops ++ [.pop]) = (stack.push.run ops).pop := runAppend stack (.push :: ops) [.pop]
  rw [popped, ran]
  rfl

theorem runInside {ops : List (Op κ ν)} (inside : Inside ops) (stack : Stack κ ν) :
    ∃ map, stack.run ops = stack.setTop map := by
  induction inside generalizing stack with
  | nil => exact ⟨stack.top, (setTopSame stack).symm⟩
  | add key value later ih =>
    obtain ⟨map, added⟩ := addTop stack key value
    obtain ⟨map', ran⟩ := ih (stack.add key value)
    exact ⟨map', by rw [← setTopTwice stack map, ← added]; exact ran⟩
  | @block inner rest inside later inner' rest' =>
    obtain ⟨map, ran⟩ := rest' stack
    have split_ : .push :: inner ++ .pop :: rest = (.push :: inner ++ [.pop]) ++ rest := by simp
    exact ⟨map, by rw [split_, runAppend, runBlock inner', ran]⟩

/-- Between a push and its pop nothing lasts. -/
theorem runBalanced {ops : List (Op κ ν)} (inside : Inside ops) (stack : Stack κ ν) :
    stack.run (.push :: ops ++ [.pop]) = stack := runBlock (runInside inside) stack

end Stack
end ScopedMaps
