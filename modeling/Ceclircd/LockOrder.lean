import Mathlib.Data.Set.Insert
import Mathlib.Order.WellFounded
import Mathlib.Logic.Function.Basic
set_option autoImplicit false

/-! Threads that take and release mutexes as their programs say, and the rule that a
lock order excludes deadlock. Programs may be interrupted by other programs. -/

namespace LockOrder

variable {T M ι α : Type}

inductive Op (M ι : Type) where
  | lock (m : M)
  | unlock (m : M)
  | work (i : ι)
  deriving DecidableEq, Repr

/-- The holder of each mutex, and what each thread still has to do. -/
structure Machine (T M ι : Type) where
  owner : M → Option T
  todo : T → List (Op M ι)

namespace Machine

def held (s : Machine T M ι) (t : T) : Set M := {m | s.owner m = some t}

def waitsFor (s : Machine T M ι) (t : T) : Option M :=
  match s.todo t with
  | .lock m :: _ => some m
  | _ => none

/-- Each thread of the set waits for a mutex that a thread of the set holds. -/
def Deadlocked (s : Machine T M ι) (S : Set T) : Prop :=
  S.Nonempty ∧ ∀ t ∈ S, ∃ m t', s.waitsFor t = some m ∧ s.owner m = some t' ∧ t' ∈ S

/-- The thread does its next statement; a mutex that is held is waited for. -/
def advance [DecidableEq T] [DecidableEq M] (s : Machine T M ι) (t : T) :
    Option (Machine T M ι × Option ι) :=
  match s.todo t with
  | [] => none
  | .lock m :: ops =>
      match s.owner m with
      | some _ => none
      | none => some (⟨Function.update s.owner m (some t),Function.update s.todo t ops⟩,none)
  | .unlock m :: ops =>
      some (⟨Function.update s.owner m none,Function.update s.todo t ops⟩,none)
  | .work i :: ops => some ({ s with todo := Function.update s.todo t ops },some i)

def prepend [DecidableEq T] (s : Machine T M ι) (t : T) (ops : List (Op M ι)) : Machine T M ι :=
  { s with todo := Function.update s.todo t (ops ++ s.todo t) }

end Machine

/-- Locks are taken in rising order only, released by their holder, and all released
at the end. -/
def Disciplined [Preorder α] (rank : M → α) : Set M → List (Op M ι) → Prop
  | H, [] => H = ∅
  | H, .lock m :: ops => (∀ h ∈ H, rank h < rank m) ∧ Disciplined rank (insert m H) ops
  | H, .unlock m :: ops => m ∈ H ∧ Disciplined rank (H \ {m}) ops
  | H, .work _ :: ops => Disciplined rank H ops

def AllDisciplined [Preorder α] (rank : M → α) (s : Machine T M ι) : Prop :=
  ∀ t, Disciplined rank (s.held t) (s.todo t)

section Programs

variable [Preorder α] {rank : M → α} {H : Set M} {ops : List (Op M ι)}

theorem Disciplined.works {body : List ι} (h : Disciplined rank H ops) :
    Disciplined rank H (body.map .work ++ ops) := by
  induction body with
  | nil => exact h
  | cons i body ih => exact ih

theorem Disciplined.bracket {m : M} (hm : ∀ h ∈ H, rank h < rank m) (body : List ι)
    (h : Disciplined rank H ops) :
    Disciplined rank H (.lock m :: (body.map .work ++ .unlock m :: ops)) := by
  have hnot : m ∉ H := fun hmem => lt_irrefl _ (hm m hmem)
  refine ⟨hm,.works ⟨Set.mem_insert m H,?_⟩⟩
  rw [Set.insert_sdiff_self_of_notMem hnot]
  exact h

theorem Disciplined.append_left {blocks : List (List (Op M ι))}
    (hb : ∀ block ∈ blocks, ∀ ops, Disciplined rank H ops → Disciplined rank H (block ++ ops))
    (h : Disciplined rank H ops) : Disciplined rank H (blocks.flatten ++ ops) := by
  induction blocks with
  | nil => exact h
  | cons block blocks ih =>
    rw [List.flatten_cons,List.append_assoc]
    exact hb block (by simp) _ (ih fun b hmem => hb b (by simp [hmem]))

end Programs

section Machines

variable [Preorder α] {rank : M → α} {s s' : Machine T M ι} {t : T}

/-- The key step: a waiting thread's mutex ranks above all it holds, so among the
mutexes waited for in a deadlock none could be of maximal rank. -/
theorem AllDisciplined.not_deadlocked [WellFoundedGT α] (h : AllDisciplined rank s) (S : Set T) :
    ¬ s.Deadlocked S := by
  rintro ⟨hne,hall⟩
  have hrise : ∀ t m m', s.waitsFor t = some m → s.owner m' = some t → rank m' < rank m := by
    intro t m m' hw ho
    have ht := h t
    unfold Machine.waitsFor at hw
    split at hw
    · next hops =>
      rw [hops] at ht
      obtain rfl := Option.some.inj hw
      exact ht.1 m' ho
    · simp at hw
  let waited : Set α := {r | ∃ t ∈ S, ∃ m, s.waitsFor t = some m ∧ r = rank m}
  have hwne : waited.Nonempty := by
    obtain ⟨t,ht⟩ := hne
    obtain ⟨m,_,hw,_⟩ := hall t ht
    exact ⟨rank m,t,ht,m,hw,rfl⟩
  obtain ⟨r,⟨t,ht,m,hw,rfl⟩,hmax⟩ := wellFounded_gt.has_min waited hwne
  obtain ⟨m₁,t',hw₁,ho,ht'⟩ := hall t ht
  obtain rfl := Option.some.inj (hw.symm.trans hw₁)
  obtain ⟨m',_,hw',_⟩ := hall t' ht'
  exact hmax (rank m') ⟨t',ht',m',hw',rfl⟩ (hrise t' m' m hw' ho)

variable [DecidableEq T]

theorem AllDisciplined.update {owner : M → Option T} {ops : List (Op M ι)}
    (h : AllDisciplined rank s)
    (hother : ∀ u, u ≠ t → (Machine.mk owner (Function.update s.todo t ops)).held u = s.held u)
    (hops : Disciplined rank ((Machine.mk owner (Function.update s.todo t ops)).held t) ops) :
    AllDisciplined rank ⟨owner,Function.update s.todo t ops⟩ := by
  intro u
  by_cases hut : u = t
  · subst hut
    simpa using hops
  · rw [hother u hut]
    simpa [hut] using h u

/-- A program put in front of a thread's own keeps all in order if it comes back to
the locks the thread holds. -/
theorem AllDisciplined.prepend {ops : List (Op M ι)} (h : AllDisciplined rank s)
    (hops : Disciplined rank (s.held t) (ops ++ s.todo t)) :
    AllDisciplined rank (s.prepend t ops) := h.update (fun _ _ => rfl) hops

variable [DecidableEq M]

theorem Machine.held_take {m : M} (t : T) (hfree : s.owner m = none)
    (todo : T → List (Op M ι)) (u : T) :
    (Machine.mk (Function.update s.owner m (some t)) todo).held u =
      if u = t then insert m (s.held u) else s.held u := by
  ext m'
  by_cases hm : m' = m
  · subst hm
    by_cases hu : u = t
    · simp [Machine.held,hu]
    · simp [Machine.held,hu,hfree,Ne.symm hu]
  · by_cases hu : u = t <;> simp [Machine.held,hu,hm]

theorem Machine.held_release {m : M} (hown : s.owner m = some t)
    (todo : T → List (Op M ι)) (u : T) :
    (Machine.mk (Function.update s.owner m none) todo).held u =
      if u = t then s.held u \ {m} else s.held u := by
  ext m'
  by_cases hm : m' = m
  · subst hm
    by_cases hu : u = t
    · simp [Machine.held,hu]
    · simp [Machine.held,hu,hown,Ne.symm hu]
  · by_cases hu : u = t <;> simp [Machine.held,hu,hm]

theorem Machine.advance_todo {w : Option ι} {op : Op M ι} {ops : List (Op M ι)}
    (hops : s.todo t = op :: ops) (hs : s.advance t = some (s',w)) :
    s'.todo = Function.update s.todo t ops := by
  unfold Machine.advance at hs
  rw [hops] at hs
  cases op with
  | lock m =>
    cases ho : s.owner m with
    | some u => simp [ho] at hs
    | none =>
      simp only [ho,Option.some.injEq,Prod.mk.injEq] at hs
      rw [← hs.1]
  | unlock m | work i =>
    simp only [Option.some.injEq,Prod.mk.injEq] at hs
    rw [← hs.1]

theorem AllDisciplined.advance {w : Option ι} (h : AllDisciplined rank s)
    (hs : s.advance t = some (s',w)) : AllDisciplined rank s' := by
  have ht := h t
  unfold Machine.advance at hs
  split at hs
  · simp at hs
  · next m ops hops =>
    rw [hops] at ht
    cases ho : s.owner m with
    | some u => simp [ho] at hs
    | none =>
      simp only [ho,Option.some.injEq,Prod.mk.injEq] at hs
      obtain ⟨rfl,_⟩ := hs
      refine h.update (fun u hut => ?_) ?_
      · rw [Machine.held_take t ho,if_neg hut]
      · rw [Machine.held_take t ho,if_pos rfl]
        exact ht.2
  · next m ops hops =>
    rw [hops] at ht
    simp only [Option.some.injEq,Prod.mk.injEq] at hs
    obtain ⟨rfl,_⟩ := hs
    refine h.update (fun u hut => ?_) ?_
    · rw [Machine.held_release ht.1,if_neg hut]
    · rw [Machine.held_release ht.1,if_pos rfl]
      exact ht.2
  · next i ops hops =>
    rw [hops] at ht
    simp only [Option.some.injEq,Prod.mk.injEq] at hs
    obtain ⟨rfl,_⟩ := hs
    exact h.update (fun _ _ => rfl) ht

end Machines

end LockOrder
