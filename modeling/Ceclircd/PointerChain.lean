import Mathlib.Logic.Function.Basic
import Mathlib.Data.List.Basic
set_option autoImplicit false

/-! Chains of records that point to one another, in a heap that refuses every access to
a record that is not allocated. -/

namespace PointerChain

variable {Addr Node : Type}

/-- The allocated records. A pointer is an `Option Addr`, with `none` for null. -/
abbrev Heap (Addr Node : Type) := Addr → Option Node

namespace Heap

variable [DecidableEq Addr]

def store (h : Heap Addr Node) (a : Addr) (n : Node) : Option (Heap Addr Node) :=
  if (h a).isSome then some (Function.update h a (some n)) else none

def free (h : Heap Addr Node) (a : Addr) : Option (Heap Addr Node) :=
  if (h a).isSome then some (Function.update h a none) else none

theorem store_eq {h : Heap Addr Node} {a : Addr} {m : Node} (ha : h a = some m) (n : Node) :
    h.store a n = some (Function.update h a (some n)) := by simp [store,ha]

theorem free_eq {h : Heap Addr Node} {a : Addr} {m : Node} (ha : h a = some m) :
    h.free a = some (Function.update h a none) := by simp [free,ha]

end Heap

variable {next : Node → Option Addr} {h h' : Heap Addr Node} {p q r : Option Addr}
  {l m : List Addr}

/-- The pointers lead from `p` over the records of `l` to `q`. -/
inductive Segment (next : Node → Option Addr) (h : Heap Addr Node) :
    Option Addr → List Addr → Option Addr → Prop
  | nil (p : Option Addr) : Segment next h p [] p
  | cons {a : Addr} {n : Node} {l : List Addr} {q : Option Addr} (ha : h a = some n)
      (hl : Segment next h (next n) l q) : Segment next h (some a) (a :: l) q

abbrev Chain (next : Node → Option Addr) (h : Heap Addr Node) (p : Option Addr)
    (l : List Addr) : Prop := Segment next h p l none

theorem Segment.nil_iff : Segment next h p [] q ↔ p = q := by
  constructor
  · intro hs
    cases hs
    rfl
  · rintro rfl
    exact .nil _

theorem Segment.snoc {a : Addr} {n : Node} (hs : Segment next h p l (some a))
    (ha : h a = some n) : Segment next h p (l ++ [a]) (next n) := by
  generalize hq : some a = q at hs
  induction hs with
  | nil p => exact hq ▸ .cons ha (.nil _)
  | cons hb _ ih => exact .cons hb (ih hq)

theorem Segment.allocated (hs : Segment next h p l q) : ∀ a ∈ l, ∃ n, h a = some n := by
  induction hs with
  | nil => simp
  | @cons a n l q ha _ ih =>
    intro b hb
    rcases List.mem_cons.mp hb with rfl | hb
    · exact ⟨n,ha⟩
    · exact ih b hb

/-- A segment needs its own records only, and of them the pointers only. -/
theorem Segment.frame (hs : Segment next h p l q)
    (heq : ∀ a ∈ l, (h' a).map next = (h a).map next) : Segment next h' p l q := by
  induction hs with
  | nil p => exact .nil p
  | @cons a n l q ha _ ih =>
    have hnext := heq a (by simp)
    rw [ha,Option.map_some,Option.map_eq_some_iff] at hnext
    obtain ⟨n',ha',hn'⟩ := hnext
    exact .cons ha' (hn' ▸ ih fun b hb => heq b (by simp [hb]))

theorem Segment.retarget [DecidableEq Addr] {a : Addr} {n : Node} (hs : Segment next h p (l ++ [a]) q)
    (hn : a ∉ l) : Segment next (Function.update h a (some n)) p (l ++ [a]) (next n) := by
  induction l generalizing p with
  | nil =>
    cases hs
    exact .cons (by simp) (.nil _)
  | cons b l ih =>
    rw [List.mem_cons,not_or] at hn
    cases hs with
    | @cons _ nb _ _ hb hl =>
      exact .cons (by rw [Function.update_of_ne (Ne.symm hn.1),hb]) (ih hl hn.2)

theorem Chain.unique (hl : Chain next h p l) (hm : Chain next h p m) : l = m := by
  induction l generalizing p m with
  | nil =>
    cases hl
    cases hm
    rfl
  | cons a l ih =>
    cases hl with
    | @cons _ n _ _ ha hl =>
      cases hm with
      | @cons _ n' _ _ ha' hm =>
        obtain rfl : n = n' := Option.some.inj (ha.symm.trans ha')
        rw [ih hl hm]

theorem Chain.tail {a : Addr} (hl : Chain next h p (l ++ a :: m)) :
    Chain next h (some a) (a :: m) := by
  induction l generalizing p with
  | nil =>
    cases hl with
    | cons ha hl => exact .cons ha hl
  | cons b l ih =>
    cases hl with
    | cons _ hl => exact ih hl

theorem Chain.nodup (hl : Chain next h p l) : l.Nodup := by
  induction l generalizing p with
  | nil => exact List.nodup_nil
  | cons a l ih =>
    have hself : Chain next h (some a) (a :: l) := Chain.tail (l := []) hl
    refine List.nodup_cons.mpr ⟨?_,?_⟩
    · intro hmem
      obtain ⟨s,t,rfl⟩ := List.append_of_mem hmem
      have hagain : Chain next h (some a) (a :: t) := Chain.tail (l := a :: s) hl
      have hlen := congrArg List.length (Chain.unique hself hagain)
      simp at hlen
      omega
    · cases hl with
      | cons _ hl => exact ih hl

end PointerChain
