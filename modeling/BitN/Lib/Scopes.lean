import Mathlib.Data.List.Nodup
import Mathlib.Logic.Embedding.Basic

/-! Nested scopes, innermost first: each a list of entries with no key twice, grown at its end. -/
namespace Scopes

variable {ε δ κ : Type} [DecidableEq κ] {key : ε → κ} {key' : δ → κ}

structure Scope (key : ε → κ) where
  entries : List ε
  distinct : (entries.map key).Nodup

namespace Scope

def empty : Scope key := ⟨[], List.nodup_nil⟩

def find (scope : Scope key) (k : κ) : Option ε := scope.entries.find? fun e => key e = k

theorem findNone {scope : Scope key} {k : κ} : scope.find k = none ↔ ∀ e ∈ scope.entries, key e ≠ k := by
  simp [find]

theorem findKnown {scope : Scope key} {k : κ} {e : ε} (found : scope.find k = some e) :
    e ∈ scope.entries ∧ key e = k := by
  unfold find at found
  exact ⟨List.mem_of_find?_eq_some found, by simpa using List.find?_some found⟩

theorem findSome {scope : Scope key} {k : κ} {e : ε} : scope.find k = some e ↔ e ∈ scope.entries ∧ key e = k := by
  refine ⟨findKnown, ?_⟩
  rintro ⟨member, named⟩
  rcases found : scope.find k with _ | e'
  · exact absurd named (findNone.mp found e member)
  · obtain ⟨member', named'⟩ := findKnown found
    rw [List.inj_on_of_nodup_map scope.distinct member' member (named'.trans named.symm)]

theorem findPerm {scope scope' : Scope key} (perm : scope.entries.Perm scope'.entries) (k : κ) :
    scope.find k = scope'.find k := by
  ext e
  rw [findSome, findSome, perm.mem_iff]

def declare (scope : Scope key) (e : ε) : Option (Scope key) :=
  if free : scope.find (key e) = none then
    some ⟨scope.entries ++ [e], by
      rw [List.map_append, List.nodup_append]
      refine ⟨scope.distinct, List.nodup_singleton _, ?_⟩
      rintro k member k' member' rfl
      obtain ⟨d, inside, rfl⟩ := List.mem_map.mp member
      exact findNone.mp free d inside (by simpa using member')⟩
  else none

def Extends (scope : Scope key) (e : ε) (next : Scope key) : Prop :=
  (∀ d ∈ scope.entries, key d ≠ key e) ∧ next.entries = scope.entries ++ [e]

omit [DecidableEq κ] in
@[ext] theorem ext {scope scope' : Scope key} (same : scope.entries = scope'.entries) : scope = scope' := by
  cases scope
  cases scope'
  cases same
  rfl

theorem declareExtends {scope next : Scope key} {e : ε} : scope.declare e = some next ↔ scope.Extends e next := by
  unfold declare Extends
  split_ifs with free
  · rw [Option.some_inj, and_iff_right (findNone.mp free)]
    exact ⟨fun same => same ▸ rfl, fun same => ext same.symm⟩
  · rw [findNone] at free
    simp [free]

theorem declareRefused {scope : Scope key} {e : ε} : scope.declare e = none ↔ ∃ d ∈ scope.entries, key d = key e := by
  unfold declare
  split_ifs with free
  · simpa using findNone.mp free
  · rw [findNone] at free
    simpa using free

theorem declarePerm {scope scope' next : Scope key} {e : ε} (perm : scope.entries.Perm scope'.entries)
    (declared : scope.declare e = some next) :
    ∃ next', scope'.declare e = some next' ∧ next.entries.Perm next'.entries := by
  obtain ⟨free, grown⟩ := declareExtends.mp declared
  have free' : ∀ d ∈ scope'.entries, key d ≠ key e := fun d member => free d (perm.mem_iff.mpr member)
  rcases declared' : scope'.declare e with _ | next'
  · obtain ⟨d, member, same⟩ := declareRefused.mp declared'
    exact absurd same (free' d member)
  · refine ⟨next', rfl, ?_⟩
    rw [grown, (declareExtends.mp declared').2]
    exact perm.append_right [e]

def map (g : ε → δ) (keeps : ∀ e, key' (g e) = key e) (scope : Scope key) : Scope key' :=
  ⟨scope.entries.map g, by simpa [List.map_map, Function.comp_def, keeps] using scope.distinct⟩

theorem mapExtends {g : ε → δ} {keeps : ∀ e, key' (g e) = key e} {scope : Scope key} {e : ε} {next : Scope key'} :
    (scope.map g keeps).Extends (g e) next ↔ ∃ grown, scope.Extends e grown ∧ grown.map g keeps = next := by
  constructor
  · rintro ⟨free, entries⟩
    rcases declared : scope.declare e with _ | grown
    · obtain ⟨d, inside, same⟩ := declareRefused.mp declared
      exact absurd (by rw [keeps, keeps, same]) (free (g d) (List.mem_map_of_mem inside))
    · have grows := declareExtends.mp declared
      exact ⟨grown, grows, ext (by simp [map, grows.2, entries])⟩
  · rintro ⟨grown, grows, rfl⟩
    refine ⟨fun d member => ?_, by simp [map, grows.2]⟩
    obtain ⟨d, inside, rfl⟩ := List.mem_map.mp member
    rw [keeps, keeps]
    exact grows.1 d inside

end Scope

def lookup (scopes : List (Scope key)) (k : κ) : Option ε := scopes.findSome? fun scope => scope.find k

/-- What a name stands for, scope by scope. -/
inductive Denotes : List (Scope key) → κ → ε → Prop where
  | here {scope outer e} (declared : e ∈ scope.entries) : Denotes (scope :: outer) (key e) e
  | outer {scope outer k e} (hidden : ∀ d ∈ scope.entries, key d ≠ k) (further : Denotes outer k e) :
      Denotes (scope :: outer) k e

omit [DecidableEq κ] in
theorem Denotes.named {scopes : List (Scope key)} {k : κ} {e : ε} (denotes : Denotes scopes k e) : key e = k := by
  induction denotes with
  | here declared => rfl
  | outer hidden further ih => exact ih

theorem lookupDenotes {scopes : List (Scope key)} {k : κ} {e : ε} : lookup scopes k = some e ↔ Denotes scopes k e := by
  induction scopes with
  | nil =>
    refine ⟨by simp [lookup], fun denotes => ?_⟩
    cases denotes
  | cons scope outer ih =>
    rw [lookup, List.findSome?_cons]
    rcases found : scope.find k with _ | d
    · have hidden := Scope.findNone.mp found
      change lookup outer k = some e ↔ _
      rw [ih]
      refine ⟨.outer hidden, fun denotes => ?_⟩
      cases denotes with
      | here declared => exact absurd rfl (hidden e declared)
      | outer _ further => exact further
    · obtain ⟨declared, rfl⟩ := Scope.findSome.mp found
      refine ⟨fun same => Option.some_inj.mp same ▸ .here declared, fun denotes => ?_⟩
      generalize named : key d = k at denotes
      cases denotes with
      | here declared' => rw [List.inj_on_of_nodup_map scope.distinct declared declared' named]
      | outer hidden _ => exact absurd named (hidden d declared)

omit [DecidableEq κ] in
theorem denotesMap {g : ε → δ} {keeps : ∀ e, key' (g e) = key e} {scopes : List (Scope key)} {k : κ} {d : δ} :
    Denotes (scopes.map (Scope.map g keeps)) k d ↔ ∃ e, Denotes scopes k e ∧ g e = d := by
  induction scopes with
  | nil =>
    constructor
    · intro denotes
      cases denotes
    · rintro ⟨e, denotes, -⟩
      cases denotes
  | cons scope outer ih =>
    constructor
    · intro denotes
      rw [List.map_cons] at denotes
      cases denotes with
      | here declared =>
        obtain ⟨e, inside, rfl⟩ := List.mem_map.mp declared
        exact ⟨e, keeps e ▸ .here inside, rfl⟩
      | outer hidden further =>
        obtain ⟨e, denotes, rfl⟩ := ih.mp further
        refine ⟨e, .outer (fun d inside => ?_) denotes, rfl⟩
        rw [← keeps]
        exact hidden (g d) (List.mem_map_of_mem inside)
    · rintro ⟨e, denotes, rfl⟩
      cases denotes with
      | here declared =>
        rw [← keeps e]
        exact .here (List.mem_map_of_mem declared)
      | outer hidden further =>
        refine .outer (fun d member => ?_) (ih.mpr ⟨e, further, rfl⟩)
        obtain ⟨c, inside, rfl⟩ := List.mem_map.mp member
        rw [keeps]
        exact hidden c inside

/-! Keys replaced, no two by the same -/

section rekeyed
variable {κ' : Type} [DecidableEq κ'] {keyed : δ → κ'}

structure Rekeying (key : ε → κ) (keyed : δ → κ') where
  name : κ ↪ κ'
  entry : ε → δ
  keeps : ∀ e, keyed (entry e) = name (key e)

variable (ρ : Rekeying key keyed)

omit [DecidableEq κ] [DecidableEq κ'] in
theorem Rekeying.keys (entries : List ε) : (entries.map ρ.entry).map keyed = (entries.map key).map ρ.name := by
  rw [List.map_map, List.map_map]
  exact List.map_congr_left fun e _ => ρ.keeps e

def Scope.rekeyed (scope : Scope key) : Scope keyed :=
  ⟨scope.entries.map ρ.entry, by rw [ρ.keys]; exact scope.distinct.map ρ.name.injective⟩

theorem Scope.rekeyedFind (scope : Scope key) (k : κ) :
    (scope.rekeyed ρ).find (ρ.name k) = (scope.find k).map ρ.entry := by
  unfold find rekeyed
  rw [List.find?_map]
  congr 2
  funext e
  simp [ρ.keeps, ρ.name.injective.eq_iff]

theorem Scope.rekeyedDeclare (scope : Scope key) (e : ε) :
    (scope.rekeyed ρ).declare (ρ.entry e) = (scope.declare e).map (Scope.rekeyed ρ) := by
  have free : (scope.rekeyed ρ).find (keyed (ρ.entry e)) = (scope.find (key e)).map ρ.entry := by
    rw [ρ.keeps, Scope.rekeyedFind]
  by_cases fresh : scope.find (key e) = none
  · rw [declare, dif_pos (free.trans (by rw [fresh]; rfl)), declare, dif_pos fresh, Option.map_some, Option.some_inj]
    exact Scope.ext (by simp [rekeyed])
  · rw [declare, dif_neg (by rwa [free, Option.map_eq_none_iff]), declare, dif_neg fresh, Option.map_none]

theorem rekeyedLookup (scopes : List (Scope key)) (k : κ) :
    lookup (scopes.map (Scope.rekeyed ρ)) (ρ.name k) = (lookup scopes k).map ρ.entry := by
  induction scopes with
  | nil => rfl
  | cons scope outer ih =>
    rw [List.map_cons, lookup, lookup, List.findSome?_cons, List.findSome?_cons, Scope.rekeyedFind]
    cases scope.find k with
    | some e => rfl
    | none => exact ih

end rekeyed

end Scopes
