import Mathlib.Data.Nat.Notation
set_option autoImplicit false

/-! `getopt` as POSIX has it, and a loop that handles one option after another. -/

namespace Getopt

/-- The characters that are left of the element being read, and the elements behind it. -/
structure Scan where
  cluster : List Char
  args : List (List Char)
  deriving DecidableEq, Repr

inductive Arity where
  | flag
  | argument
  deriving DecidableEq, Repr

/-- What an option string says of a character. A colon says that the option takes an argument,
and is no option itself. -/
def arity (c : Char) : List Char → Option Arity
  | [] => none
  | d :: ds =>
    if d = c ∧ c ≠ ':' then some (if ds.head? = some ':' then .argument else .flag)
    else arity c ds

abbrev Found := Option (Char × Option (List Char))

/-- The call that reads option `c`, with `cs` behind it in the same element. -/
def readOption (optstring : List Char) (c : Char) (cs : List Char)
    (args : List (List Char)) : Found × Scan :=
  match arity c optstring with
  | none => (some ('?',none),⟨cs,args⟩)
  | some .flag => (some (c,none),⟨cs,args⟩)
  | some .argument =>
    if cs ≠ [] then (some (c,some cs),⟨[],args⟩)
    else
      match args with
      | [] => (some ('?',none),⟨[],[]⟩)
      | arg :: args => (some (c,some arg),⟨[],args⟩)

def getopt (optstring : List Char) : Scan → Found × Scan
  | ⟨c :: cs,args⟩ => readOption optstring c cs args
  | ⟨[],('-' :: '-' :: []) :: args⟩ => (none,⟨[],args⟩)
  | ⟨[],('-' :: c :: cs) :: args⟩ => readOption optstring c cs args
  | ⟨[],args⟩ => (none,⟨[],args⟩)

/-- How a loop over the options ends: it is left from inside, or `getopt` returned `-1`. -/
inductive Ended (σ : Type) where
  | stopped
  | finished (s : σ) (scan : Scan)
  deriving DecidableEq, Repr

section
variable {σ : Type}

/-- `while ((opt = getopt(..)) != -1)`, where `handle` gives `none` to leave. `none` is a loop
of more than `fuel` calls. -/
def loop (optstring : List Char) (handle : σ → Char → Option (List Char) → Option σ) :
    Nat → Scan → σ → Option (Ended σ)
  | 0, _, _ => none
  | fuel + 1, scan, s =>
    match getopt optstring scan with
    | (none,scan) => some (.finished s scan)
    | (some (c,optarg),scan) =>
      match handle s c optarg with
      | none => some .stopped
      | some s => loop optstring handle fuel scan s

variable {optstring : List Char} {handle : σ → Char → Option (List Char) → Option σ}

theorem loop_handled {scan next : Scan} {c : Char} {optarg : Option (List Char)} {s s' : σ}
    (h : getopt optstring scan = (some (c,optarg),next)) (hs : handle s c optarg = some s')
    (fuel : Nat) :
    loop optstring handle (fuel + 1) scan s = loop optstring handle fuel next s' := by
  simp only [loop,h,hs]

theorem loop_stopped {scan next : Scan} {c : Char} {optarg : Option (List Char)} {s : σ}
    (h : getopt optstring scan = (some (c,optarg),next)) (hs : handle s c optarg = none)
    (fuel : Nat) : loop optstring handle (fuel + 1) scan s = some .stopped := by
  simp only [loop,h,hs]

theorem loop_element {c : Char} (hc : c ≠ '-') (cs : List Char) (args : List (List Char)) (s : σ)
    (fuel : Nat) : loop optstring handle fuel ⟨[],('-' :: c :: cs) :: args⟩ s =
      loop optstring handle fuel ⟨c :: cs,args⟩ s := by
  have h : getopt optstring ⟨[],('-' :: c :: cs) :: args⟩ = getopt optstring ⟨c :: cs,args⟩ := by
    simp [getopt,hc]
  cases fuel with
  | zero => rfl
  | succ fuel => rw [loop,loop,h]

def Scan.size (scan : Scan) : Nat :=
  scan.cluster.length + (scan.args.flatten.length + scan.args.length)

theorem size_readOption (optstring : List Char) (c : Char) (cs : List Char)
    (args : List (List Char)) :
    (readOption optstring c cs args).2.size ≤ cs.length + (args.flatten.length + args.length) := by
  unfold readOption
  split
  · exact Nat.le_refl _
  · exact Nat.le_refl _
  · split
    · simp [Scan.size]
    · split
      · simp [Scan.size]
      · simp [Scan.size]
        omega

theorem size_getopt {scan : Scan} {r : Char × Option (List Char)}
    (h : (getopt optstring scan).1 = some r) : (getopt optstring scan).2.size < scan.size := by
  unfold getopt at h ⊢
  split at h
  · rename_i c cs args
    have hsize := size_readOption optstring c cs args
    simp only [Scan.size,List.length_cons] at hsize ⊢
    omega
  · simp at h
  · rename_i c cs args _
    have hsize := size_readOption optstring c cs args
    simp only [Scan.size,List.flatten_cons,List.length_append,List.length_cons,List.length_nil]
      at hsize ⊢
    omega
  · simp at h

theorem loop_total {fuel : Nat} {scan : Scan} (s : σ) (hfuel : scan.size < fuel) :
    ∃ e, loop optstring handle fuel scan s = some e := by
  induction fuel generalizing scan s with
  | zero => omega
  | succ fuel ih =>
    rw [loop]
    split
    · exact ⟨_,rfl⟩
    · rename_i c optarg next hnext
      split
      · exact ⟨_,rfl⟩
      · have hless := size_getopt (congrArg Prod.fst hnext)
        rw [hnext] at hless
        exact ih _ (by dsimp only at hless; omega)

def Offered (optstring : List Char) (c : Char) : Prop := c = '?' ∨ (arity c optstring).isSome = true

theorem readOption_offered {c d : Char} {cs : List Char} {args : List (List Char)}
    {optarg : Option (List Char)} (h : (readOption optstring c cs args).1 = some (d,optarg)) :
    Offered optstring d := by
  unfold readOption at h
  cases ha : arity c optstring with
  | none =>
    simp only [ha,Option.some.injEq,Prod.mk.injEq] at h
    exact .inl h.1.symm
  | some a =>
    have hc : Offered optstring c := .inr (by rw [ha]; rfl)
    cases a with
    | flag =>
      simp only [ha,Option.some.injEq,Prod.mk.injEq] at h
      exact h.1 ▸ hc
    | argument =>
      simp only [ha] at h
      split at h
      · simp only [Option.some.injEq,Prod.mk.injEq] at h
        exact h.1 ▸ hc
      · split at h
        · simp only [Option.some.injEq,Prod.mk.injEq] at h
          exact .inl h.1.symm
        · simp only [Option.some.injEq,Prod.mk.injEq] at h
          exact h.1 ▸ hc

theorem getopt_offered {scan : Scan} {c : Char} {optarg : Option (List Char)}
    (h : (getopt optstring scan).1 = some (c,optarg)) : Offered optstring c := by
  unfold getopt at h
  split at h
  · exact readOption_offered h
  · simp at h
  · exact readOption_offered h
  · simp at h

theorem loop_keeps {I : σ → Prop}
    (hstep : ∀ s c optarg s', I s → Offered optstring c → handle s c optarg = some s' → I s')
    {fuel : Nat} {scan rest : Scan} {s t : σ} (h0 : I s)
    (h : loop optstring handle fuel scan s = some (.finished t rest)) : I t := by
  induction fuel generalizing scan s with
  | zero => simp [loop] at h
  | succ fuel ih =>
    rw [loop] at h
    split at h
    · simp only [Option.some.injEq,Ended.finished.injEq] at h
      exact h.1 ▸ h0
    · next c optarg next hnext =>
      have hoffered := getopt_offered (congrArg Prod.fst hnext)
      cases hh : handle s c optarg with
      | none => simp [hh] at h
      | some s' =>
        simp only [hh] at h
        exact ih (hstep s c optarg s' h0 hoffered hh) h

end

end Getopt
